import PowerCurve.Proofs.SessionLog.Lines
import PowerCurve.Proofs.SessionLog.Plan

/-!
# A failure of the device is never swallowed

A device delivers some bytes and then fails for good. The lines that are finished by then decide: if
one of them does not fit, that is the error, and if all of them fit, or there are more of them than
the log needs, the failure itself is the error (`parse_readFailure`).
-/

namespace PowerCurve

/-- Reading is over after any fault but an interruption and invalid data. -/
theorem Fault.effect_eq_endsReading {fault : Fault}
    (hi : ∀ message, fault ≠ .device .interrupted message)
    (hd : ∀ message, fault ≠ .device .invalidData message) (hu : fault ≠ .file .notUtf8) :
    fault.effect = .endsReading := by
  cases fault with
  | device kind message =>
    cases kind with
    | interrupted => exact absurd rfl (hi message)
    | invalidData => exact absurd rfl (hd message)
    | _ => rfl
  | file cause =>
    cases cause with
    | notUtf8 => exact absurd rfl hu
    | _ => rfl

namespace SessionLog

open PowerCurve.Text

/-! ## The same lines with and without a fault -/

/-- The outcome of a line that exists does not depend on a fault after the lines. -/
theorem parse_fault_of_misfit {window : Nat} (hw : 0 < window) {lines : List Line} {k : Nat}
    {part : Part} {cause : Cause} (hk : k ≤ lines.length)
    (h : (parse window ⟨lines, none⟩).result = .error (.misfit k part cause))
    (fault : Option Fault) :
    (parse window ⟨lines, fault⟩).result = .error (.misfit k part cause) := by
  rcases exists_parse_eq_verdict hw lines with ⟨used, rest, outcome, rfl, hreads, hrest, hparse⟩
  rw [hparse] at h ⊢
  cases outcome with
  | value session => cases h
  | refusal part' cause' => exact h
  | missing part' =>
    -- the line would be behind the last one
    cases h
    obtain rfl := hrest part rfl
    rw [List.append_nil] at hk
    omega

/-- If no line that exists is refused, a fault after the lines is the outcome. -/
theorem parse_fault_of_fits {window : Nat} (hw : 0 < window) {lines : List Line}
    (h : ∀ k part cause, k ≤ lines.length →
      (parse window ⟨lines, none⟩).result ≠ .error (.misfit k part cause)) (fault : Fault) :
    (parse window ⟨lines, some fault⟩).result = .error (.unreadable fault) := by
  rcases exists_parse_eq_verdict hw lines with ⟨used, rest, outcome, rfl, hreads, hrest, hparse⟩
  rw [hparse]
  cases outcome with
  | value session => rfl
  | refusal part cause =>
    have hk : used.length ≤ (used ++ rest).length := by simp
    exact absurd (hparse none) (h used.length part cause hk)
  | missing part => rfl

/-! ## Devices -/

/-- **A failure of the device is never swallowed.** If the whole lines before it do not fit, the
error is theirs, otherwise it is the failure; what the device would deliver afterwards does not
matter. Only an empty window is refused earlier than that, whatever the log. -/
theorem parse_readFailure {script : List Arrival} {bytes : Bytes} (h : Delivers script bytes)
    (fault : Fault) (hi : ∀ message, fault ≠ .device .interrupted message)
    (hd : ∀ message, fault ≠ .device .invalidData message) (hu : fault ≠ .file .notUtf8)
    (later : List Arrival) :
    (∀ window, 0 < window →
      (∀ k part cause, k ≤ (byteLines (wholeLines bytes)).length →
        (parse window (.ofBytes (wholeLines bytes))).result = .error (.misfit k part cause) →
        (parse window (.ofArrivals (script ++ .failure fault :: later))).result =
          .error (.misfit k part cause)) ∧
      ((∀ k part cause, k ≤ (byteLines (wholeLines bytes)).length →
          (parse window (.ofBytes (wholeLines bytes))).result ≠ .error (.misfit k part cause)) →
        (parse window (.ofArrivals (script ++ .failure fault :: later))).result =
          .error (.unreadable fault))) ∧
    ∀ source, parse 0 source = ⟨[], .error .emptyWindow⟩ := by
  have hf : fault.effect = .endsReading := Fault.effect_eq_endsReading hi hd hu
  rw [Source.ofArrivals_fault h hf, Source.ofBytes_eq, byteLines_wholeLines]
  have hlen : (finishedLines bytes).length =
      ((finishedLines bytes).map Line.ofBytes).length := by rw [List.length_map]
  rw [hlen]
  refine ⟨?_, fun source => rfl⟩
  intro window hw
  constructor
  · intro k part cause hk hparse
    exact parse_fault_of_misfit hw hk hparse (some fault)
  · intro hfits
    exact parse_fault_of_fits hw hfits fault

/-- A connection is reset in the middle of the second line. -/
theorem parse_readFailure_reset :
    (parse 1 (.ofArrivals [.bytes [0x61, 0x0A, 0x62], .failure (.device .connectionReset none),
        .bytes [0x0A]])).result =
      .error (.unreadable (.device .connectionReset none)) := by
  have h : Delivers [.bytes [0x61, 0x0A, 0x62]] [0x61, 0x0A, 0x62] :=
    .chunk [0x61, 0x0A, 0x62] .nothing
  have hlength : (byteLines (wholeLines [0x61, 0x0A, 0x62])).length = 1 := by decide
  have hwhole : (parse 1 (.ofBytes (wholeLines [0x61, 0x0A, 0x62]))).result =
      .error (.misfit 2 .preamble .endOfInput) := by rfl
  obtain ⟨hfailure, -⟩ := parse_readFailure h (.device .connectionReset none) (fun _ => nofun)
    (fun _ => nofun) nofun [.bytes [0x0A]]
  apply (hfailure 1 (by decide)).2
  intro k part cause hk hparse
  rw [hwhole] at hparse
  cases hparse
  omega

end SessionLog

end PowerCurve
