import Mathlib.Data.List.Forall2
import Mathlib.Tactic.MkIffOfInductiveProp
import PowerCurve.CommandLine
import PowerCurve.Proofs.Json.Printed

/-!
# Sessions can be told from their JSON

Whatever strings, numbers and lists there are in two sessions, their texts are the same only if the
sessions agree (`Session.text_unambiguous`), and what is printed with extremes tells these as well.
Numbers agree if they have the same bits, and all that is not finite agrees.
-/

namespace PowerCurve.Json

open PowerCurve.Decimal

/-! ## Values -/

theorem glyphsOf_injective : Function.Injective glyphsOf := by
  intro text text' h
  have htext := congrArg textOf? h
  rw [textOf?_glyphsOf, textOf?_glyphsOf] at htext
  exact Option.some.inj htext

theorem Value.ofString_inj {s s' : String} : ofString s = ofString s' ↔ s = s' := by
  rw [ofString, ofString, Value.string.injEq, glyphsOf_injective.eq_iff, String.toList_inj]

theorem Value.ofNat_inj {n n' : Nat} : ofNat n = ofNat n' ↔ n = n' := by
  constructor
  · intro h
    have hdigits : digits n = digits n' := congrArg Numeral.whole (Value.number.inj h)
    rw [← value_digits n, hdigits, value_digits]
  · exact congrArg _

theorem Value.record_inj {members members' : List (String × Value)} :
    record members = record members' ↔ members = members' := by
  have hmember : Function.Injective fun m : String × Value => (glyphsOf m.1.toList, m.2) := by
    intro m m' h
    rcases Prod.mk.inj h with ⟨hname, hv⟩
    exact Prod.ext (String.toList_inj.mp (glyphsOf_injective hname)) hv
  rw [record, record, Value.object.injEq, hmember.list_map.eq_iff]

/-- Lists are written alike if their items are, one by one. -/
theorem Value.list_map_inj {α : Type} {toJson : α → Value} {xs ys : List α} :
    list (xs.map toJson) = list (ys.map toJson) ↔
      List.Forall₂ (fun x y => toJson x = toJson y) xs ys := by
  rw [Value.list.injEq, ← List.forall₂_eq_eq_eq, List.forall₂_map_left_iff,
    List.forall₂_map_right_iff]

/-- Plain values have the same text in a layout exactly if they are the same. -/
theorem text_eq_iff {layout : Layout} (hlayout : layout.IsBlank) {v w : Value} (hv : v.IsPlain)
    (hw : w.IsPlain) : String.ofList (v.text layout) = String.ofList (w.text layout) ↔ v = w := by
  rw [String.ofList_inj]
  exact ⟨text_injective hlayout hv hw, congrArg _⟩

/-- The text of a plain value is a document of this value and of no other. -/
theorem isDocument_text_iff {layout : Layout} (hlayout : layout.IsBlank) {v w : Value}
    (hv : v.IsPlain) : IsDocument (String.ofList (v.text layout)).toList w ↔ w = v := by
  rw [String.toList_ofList]
  constructor
  · exact fun h => h.unique (hv.isDocument hlayout)
  · rintro rfl
    exact hv.isDocument hlayout

end PowerCurve.Json

namespace PowerCurve

open PowerCurve.Json

/-! ## Plain values -/

theorem Preamble.toJson_isPlain (p : Preamble) : p.toJson.IsPlain := by
  refine Value.record_isPlain ?_
  simp only [List.forall_mem_cons]
  exact ⟨Value.ofString_isPlain _, Value.ofFloat_isPlain _, Value.ofString_isPlain _,
    Value.ofNat_isPlain _, Value.ofNat_isPlain _, Value.ofNat_isPlain _, Value.ofNat_isPlain _,
    nofun⟩

theorem Event.toJson_isPlain (event : Event) : event.toJson.IsPlain := by
  refine Value.record_isPlain ?_
  simp only [List.forall_mem_cons]
  exact ⟨Value.ofFloat_isPlain _, Value.ofString_isPlain _, nofun⟩

theorem Reading.toJson_isPlain (reading : Reading) : reading.toJson.IsPlain := by
  refine Value.record_isPlain ?_
  simp only [List.forall_mem_cons]
  exact ⟨Value.ofFloat_isPlain _, Value.ofFloat_isPlain _, nofun⟩

theorem Session.toJson_isPlain (s : Session) : s.toJson.IsPlain := by
  refine Value.record_isPlain ?_
  simp only [List.forall_mem_cons]
  refine ⟨s.preamble.toJson_isPlain, .list ?_, .list ?_, nofun⟩
  · exact List.forall_mem_map.mpr fun event _ => event.toJson_isPlain
  · exact List.forall_mem_map.mpr fun reading _ => reading.toJson_isPlain

theorem Bounds.toJson_isPlain (b : Bounds) : b.toJson.IsPlain := by
  refine Value.record_isPlain ?_
  simp only [List.forall_mem_cons]
  exact ⟨Value.ofFloat_isPlain _, Value.ofFloat_isPlain _, nofun⟩

theorem dumpJson_isPlain (s : Session) (bounds : Option Bounds) : (dumpJson s bounds).IsPlain := by
  refine Value.record_isPlain ?_
  simp only [List.forall_mem_cons]
  refine ⟨s.toJson_isPlain, ?_, nofun⟩
  cases bounds with
  | none => exact .null
  | some b => exact b.toJson_isPlain

/-! ## Sessions that agree -/

/-- Preambles that agree in every field. -/
@[mk_iff]
structure Preamble.Agrees (p q : Preamble) : Prop where
  description : p.description = q.description
  startTime : WrittenAlike p.startTime q.startTime
  channels : p.channels = q.channels
  sampleRate : p.sampleRate = q.sampleRate
  samplesPerSecond : p.samplesPerSecond = q.samplesPerSecond
  eventCount : p.eventCount = q.eventCount
  sampleCount : p.sampleCount = q.sampleCount

/-- Events that agree in time and label. -/
@[mk_iff]
structure Event.Agrees (e f : Event) : Prop where
  time : WrittenAlike e.time f.time
  message : e.message = f.message

/-- Readings that agree in time and power. -/
@[mk_iff]
structure Reading.Agrees (r t : Reading) : Prop where
  time : WrittenAlike r.time t.time
  power : WrittenAlike r.power t.power

/-- Sessions that agree in their preambles and, one by one, in their events and readings. -/
@[mk_iff]
structure Session.Agrees (s s' : Session) : Prop where
  preamble : s.preamble.Agrees s'.preamble
  events : List.Forall₂ Event.Agrees s.events s'.events
  readings : List.Forall₂ Reading.Agrees s.readings s'.readings

theorem Preamble.toJson_eq_iff {p q : Preamble} : p.toJson = q.toJson ↔ p.Agrees q := by
  simp only [agrees_iff, toJson, Value.record_inj, List.cons.injEq, Prod.mk.injEq, true_and,
    and_true, Value.ofString_inj, Value.ofNat_inj, Value.ofFloat_eq_iff, UInt32.toNat_inj,
    UInt64.toNat_inj]

theorem Event.toJson_eq_iff {e f : Event} : e.toJson = f.toJson ↔ e.Agrees f := by
  simp only [agrees_iff, toJson, Value.record_inj, List.cons.injEq, Prod.mk.injEq, true_and,
    and_true, Value.ofString_inj, Value.ofFloat_eq_iff]

theorem Reading.toJson_eq_iff {r t : Reading} : r.toJson = t.toJson ↔ r.Agrees t := by
  simp only [agrees_iff, toJson, Value.record_inj, List.cons.injEq, Prod.mk.injEq, true_and,
    and_true, Value.ofFloat_eq_iff]

theorem Session.toJson_eq_iff {s s' : Session} : s.toJson = s'.toJson ↔ s.Agrees s' := by
  simp only [agrees_iff, toJson, Value.record_inj, List.cons.injEq, Prod.mk.injEq, true_and,
    and_true, Value.list_map_inj, Preamble.toJson_eq_iff, Event.toJson_eq_iff,
    Reading.toJson_eq_iff]

/-- Extremes that agree. -/
@[mk_iff]
structure Bounds.Agrees (b c : Bounds) : Prop where
  latestEvent : WrittenAlike b.latestEvent c.latestEvent
  highestReading : WrittenAlike b.highestReading c.highestReading

theorem Bounds.toJson_eq_iff {b c : Bounds} : b.toJson = c.toJson ↔ b.Agrees c := by
  simp only [agrees_iff, toJson, Value.record_inj, List.cons.injEq, Prod.mk.injEq, true_and,
    and_true, Value.ofFloat_eq_iff]

theorem dumpJson_eq_iff {s s' : Session} {bounds bounds' : Option Bounds} :
    dumpJson s bounds = dumpJson s' bounds' ↔
      s.Agrees s' ∧ Option.Rel Bounds.Agrees bounds bounds' := by
  simp only [dumpJson, Value.record_inj, List.cons.injEq, Prod.mk.injEq, true_and, and_true,
    Session.toJson_eq_iff]
  refine and_congr_right fun _ => ?_
  constructor
  · intro h
    cases bounds with
    | none =>
      cases bounds' with
      | none => exact .none
      | some c => cases h
    | some b =>
      cases bounds' with
      | none => cases h
      | some c => exact .some (Bounds.toJson_eq_iff.mp h)
  · intro h
    cases h with
    | none => rfl
    | some hagrees => exact Bounds.toJson_eq_iff.mpr hagrees

/-! ## Their texts -/

theorem indented_dumpJson_eq_iff {s s' : Session} {bounds bounds' : Option Bounds} :
    (dumpJson s bounds).indented = (dumpJson s' bounds').indented ↔
      s.Agrees s' ∧ Option.Rel Bounds.Agrees bounds bounds' :=
  (Json.text_eq_iff Layout.indented_isBlank (dumpJson_isPlain s bounds)
    (dumpJson_isPlain s' bounds')).trans dumpJson_eq_iff

/-- **Sessions can be told from their texts**, compact or indented: the texts are the same exactly
if the sessions agree in every field and element. Both texts of a session are documents of one and the
same value, and what `dump` prints tells the session and its extremes. -/
theorem Session.text_unambiguous (s s' : Session) :
    (s.toJson.compact = s'.toJson.compact ↔ s.Agrees s') ∧
    (s.toJson.indented = s'.toJson.indented ↔ s.Agrees s') ∧
    (∀ v, IsDocument s.toJson.compact.toList v ↔ v = s.toJson) ∧
    (∀ v, IsDocument s.toJson.indented.toList v ↔ v = s.toJson) ∧
    (∀ bounds bounds', (dumpJson s bounds).indented = (dumpJson s' bounds').indented ↔
      s.Agrees s' ∧ Option.Rel Bounds.Agrees bounds bounds') := by
  have hplain := s.toJson_isPlain
  have hplain' := s'.toJson_isPlain
  refine ⟨?_, ?_, fun v => isDocument_text_iff Layout.compact_isBlank hplain,
    fun v => isDocument_text_iff Layout.indented_isBlank hplain,
    fun _ _ => indented_dumpJson_eq_iff⟩
  · exact (Json.text_eq_iff Layout.compact_isBlank hplain hplain').trans toJson_eq_iff
  · exact (Json.text_eq_iff Layout.indented_isBlank hplain hplain').trans toJson_eq_iff

/-- All members of a dump by their names. -/
example :
    let s : Session := ⟨⟨"p", 0.0, "A", 10, 5, 1, 7⟩, [⟨1.0, "go"⟩], [⟨2.0, 27.0⟩]⟩
    (dumpJson s (some ⟨1.0, 27.0⟩)).compact =
      "\x7b\"session\":\x7b\"preamble\":\x7b\"channel_description\":\"p\",\"start_time\":0.0," ++
        "\"channels\":\"A\",\"sample_rate\":10,\"samples_per_second\":5,\"num_timestamps\":1," ++
        "\"num_samples\":7\x7d,\"timestamps\":[\x7b\"time\":1.0,\"message\":\"go\"\x7d]," ++
        "\"readings\":[\x7b\"time\":2.0,\"power\":27.0\x7d]\x7d," ++
        "\"bounds\":\x7b\"x_max\":1.0,\"y_max\":27.0\x7d\x7d" := by
  decide +kernel

end PowerCurve
