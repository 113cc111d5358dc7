import PowerCurve.Proofs.SessionLog.Grammar
import PowerCurve.Proofs.SessionLog.Layout

/-!
# The position in an error is right

The number of the line that is refused, the section that is named and the cause belong together, and
the notices tell how far the parser came (`parse_position`). All of it is read off the courses that
the parser can take.
-/

namespace PowerCurve.SessionLog

open PowerCurve.Text

theorem IsFirstMisfit.le {lineCount k : Nat} {cause : Cause} (h : IsFirstMisfit lineCount k cause) :
    k ≤ lineCount + 1 := by
  rcases h with ⟨hle, -⟩ | ⟨rfl, -⟩
  · exact Nat.le_succ_of_le hle
  · exact Nat.le_refl _

/-- The line behind the last one is refused exactly in the words for the end of the log. -/
theorem IsFirstMisfit.eq_iff {lineCount k : Nat} {cause : Cause}
    (h : IsFirstMisfit lineCount k cause) :
    k = lineCount + 1 ↔ cause.text = "unexpected end of input" := by
  rcases h with ⟨hle, hcause⟩ | ⟨heq, hcause⟩
  · constructor
    · intro heq
      omega
    · intro htext
      exact absurd htext hcause.text_ne
  · constructor
    · intro _
      rw [hcause]
      rfl
    · intro _
      exact heq

/-- Lines that the plan of the preamble reads are a preamble. -/
theorem isPreamble_of_reads {lines : List Bytes} {front rest : List Line} {p : Preamble}
    (hlines : lines.map Line.ofBytes = front ++ rest)
    (hfront : preamblePlan.Reads front (.value p)) : IsPreamble lines p := by
  have hsays : (preamblePlan.bind .done).SaysAt (lines.map Line.ofBytes) 0 p := by
    have h : preamblePlan.SaysAt (lines.map Line.ofBytes) 0 p :=
      Plan.saysAt_iff.mpr ⟨front, rest, hlines, hfront⟩
    exact h
  rcases saysAt_preamblePlan_bind.mp hsays with ⟨p', hp', heq⟩
  rw [Plan.saysAt_done] at heq
  exact heq ▸ hp'

/-- After a session the summary is the last notice. -/
theorem getLast?_parsedNotices (s : Session) (ignored : Nat) (opening : Notice) :
    (opening :: parsedNotices s ignored).getLast? =
      some (.logParsed s.events.length s.readings.length) := by
  rw [parsedNotices, ← List.cons_append, List.getLast?_concat]

theorem level_preambleNotice (p : Preamble) : (preambleNotice p).level = .debug := rfl

/-- **The position in an error is right.** The line is one of the log or the one behind it, which is
refused for the end of the log and nothing else. It is named as one of the section to which it
belongs by the counts in the preamble, and the preamble has been read if it is behind it. The
notices tell whether it has been read, and whether there is a session. -/
theorem parse_position {window : Nat} (hw : 0 < window) (bytes : Bytes) :
    (∀ k part cause,
      (parse window (.ofBytes bytes)).result = .error (.misfit k part cause) →
      (1 ≤ k ∧ k ≤ (byteLines bytes).length + 1) ∧
      (k = (byteLines bytes).length + 1 ↔ cause.text = "unexpected end of input") ∧
      part ≠ .done ∧ (part = .preamble ↔ k ≤ 8) ∧
      (k ≤ 8 → (parse window (.ofBytes bytes)).notices = []) ∧
      (9 ≤ k → ∃ p, IsPreamble (byteLines bytes) p ∧
        (part = .events ↔ 9 ≤ k ∧ k ≤ 9 + p.eventCount.toNat) ∧
        (part = .samples ↔
          10 + p.eventCount.toNat ≤ k ∧ k ≤ 9 + p.eventCount.toNat + p.rowCount) ∧
        (parse window (.ofBytes bytes)).notices =
          [.preambleRead p.eventCount.toNat p.sampleCount.toNat p.sampleRate.toNat])) ∧
    ((∃ notice ∈ (parse window (.ofBytes bytes)).notices, notice.level = .info) ↔
      ∃ s, (parse window (.ofBytes bytes)).result = .ok s) ∧
    ∀ s, (parse window (.ofBytes bytes)).result = .ok s →
      (parse window (.ofBytes bytes)).notices.getLast? =
        some (.logParsed s.events.length s.readings.length) := by
  have hlength : ((byteLines bytes).map Line.ofBytes).length = (byteLines bytes).length :=
    List.length_map _
  have hcourse := parse_course hw ((byteLines bytes).map Line.ofBytes)
  rw [← Source.ofBytes_eq] at hcourse
  generalize parse window (.ofBytes bytes) = noted at hcourse ⊢
  cases hcourse with
  | @preambleMisfit k cause hk hfirst =>
    rw [hlength] at hfirst
    refine ⟨?_, ?_, nofun⟩
    · rintro _ _ _ ⟨⟩
      refine ⟨⟨Nat.succ_pos k, hfirst.le⟩, hfirst.eq_iff, nofun, ?_, fun _ => rfl, ?_⟩
      · exact iff_of_true rfl hk
      · intro hle
        omega
    · constructor
      · rintro ⟨notice, hmem, -⟩
        cases hmem
      · rintro ⟨s, ⟨⟩⟩
  | @bodyMisfit front rest p k part cause hlines hfront hpart hfirst =>
    rw [hlength] at hfirst
    rw [getElem?_bodyParts] at hpart
    refine ⟨?_, ?_, nofun⟩
    · rintro _ _ _ ⟨⟩
      refine ⟨⟨by omega, hfirst.le⟩, hfirst.eq_iff, ?_, ?_, ?_, ?_⟩
      · rcases hpart with ⟨rfl, -⟩ | ⟨rfl, -⟩ <;> nofun
      · apply iff_of_false
        · rcases hpart with ⟨rfl, -⟩ | ⟨rfl, -⟩ <;> nofun
        · omega
      · intro hle
        omega
      · intro _
        refine ⟨p, isPreamble_of_reads hlines hfront, ?_, ?_, rfl⟩
        · rcases hpart with ⟨rfl, hlt⟩ | ⟨rfl, hle, hlt⟩
          · exact iff_of_true rfl (by omega)
          · exact iff_of_false nofun (by omega)
        · rcases hpart with ⟨rfl, hlt⟩ | ⟨rfl, hle, hlt⟩
          · exact iff_of_false nofun (by omega)
          · exact iff_of_true rfl (by omega)
    · constructor
      · rintro ⟨notice, hmem, hlevel⟩
        rw [List.mem_singleton] at hmem
        rw [hmem, level_preambleNotice] at hlevel
        cases hlevel
      · rintro ⟨s, ⟨⟩⟩
  | @session front back rest s hlines hfront hlength hback hlength' =>
    have hlast := getLast?_parsedNotices s (rest.countP Line.isRemarkable)
      (preambleNotice s.preamble)
    refine ⟨nofun, iff_of_true ?_ ⟨s, rfl⟩, ?_⟩
    · exact ⟨_, List.mem_of_getLast? hlast, rfl⟩
    · rintro _ ⟨⟩
      exact hlast

/-- A log that announces one event and ends behind its preamble: the first event is missing. -/
theorem parse_position_noEvent :
    let bytes : Bytes := [0x61, 0x0A, 0x3A, 0x30, 0x0A, 0x3A, 0x0A, 0x3A, 0x31, 0x0A, 0x3A, 0x31,
      0x0A, 0x3A, 0x31, 0x0A, 0x3A, 0x30, 0x0A, 0x0A]
    (parse 1 (.ofBytes bytes)).result = .error (.misfit 9 .events .endOfInput) ∧
      ∃ p, IsPreamble (byteLines bytes) p ∧ (parse 1 (.ofBytes bytes)).notices =
        [.preambleRead p.eventCount.toNat p.sampleCount.toNat p.sampleRate.toNat] := by
  intro bytes
  have h : (parse 1 (.ofBytes bytes)).result = .error (.misfit 9 .events .endOfInput) := by rfl
  have hwindow : 0 < 1 := by decide
  rcases parse_position hwindow bytes with ⟨hmisfit, -⟩
  rcases hmisfit 9 .events .endOfInput h with ⟨-, -, -, -, -, hbody⟩
  rcases hbody (by decide) with ⟨p, hp, -, -, hnotices⟩
  exact ⟨h, p, hp, hnotices⟩

end PowerCurve.SessionLog
