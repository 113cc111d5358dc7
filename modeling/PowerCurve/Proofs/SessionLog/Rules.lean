import PowerCurve.Proofs.Decimal.Literal
import PowerCurve.Proofs.Steps
import PowerCurve.Proofs.Text.Blank
import PowerCurve.Proofs.Text.Pieces
import PowerCurve.SessionLog.Rules

/-!
# Which lines the rules accept

For each kind of line there is a relation between its text and what it says, in which none of the
functions that read it occurs: a value stands between white space (`IsTrimmed`), a numeral is read
as the nearest number (`IsReal`), and samples are added one after the other (`IsSum`). The rule of a
kind accepts the related lines and no others.
-/

namespace PowerCurve.SessionLog

open PowerCurve.Text PowerCurve.Decimal

/-! ## Kinds of lines -/

/-- A line of the preamble: a name, the first colon, and a value with white space around it. -/
def IsField (line : List Char) (IsValue : List Char → Prop) : Prop :=
  ∃ name rest value, line = name ++ ':' :: rest ∧ ':' ∉ name ∧ IsTrimmed rest value ∧ IsValue value

/-- A line of white space only. -/
def IsBlankLine (line : List Char) : Prop :=
  IsWhite line

/-- A real number with white space around it. -/
def IsSample (text : List Char) (x : Float) : Prop :=
  ∃ literal, IsTrimmed text literal ∧ IsReal literal x

/-- A line of the events: a time in nanoseconds, the only bar, and a label with white space around
it. -/
def IsEvent (start : Float) (line : List Char) (e : Event) : Prop :=
  ∃ time label message nanos, line = time ++ '|' :: label ∧ '|' ∉ time ∧ '|' ∉ label ∧
    IsSample time nanos ∧ IsTrimmed label message ∧
    e = ⟨(nanos - start) / 1000000000.0, String.ofList message⟩

/-- The sum of a series, one number after the other from the left. -/
inductive IsSum : List Float → Float → Prop where
  | one (x : Float) : IsSum [x] x
  | more {xs : List Float} {sum : Float} (h : IsSum xs sum) (x : Float) : IsSum (xs ++ [x]) (sum + x)

/-- A row of samples: real numbers with commas between them, not fewer than the window; the power is
the sum of as many of the last ones as the window has. -/
def IsRow (window : Nat) (line : List Char) (power : Float) : Prop :=
  ∃ tokens front last, tokens ≠ [] ∧ line = [','].intercalate tokens ∧ (∀ t ∈ tokens, ',' ∉ t) ∧
    List.Forall₂ IsSample tokens (front ++ last) ∧ last.length = window ∧ IsSum last power

/-! ## Sums -/

theorem total_singleton (x : Float) : total [x] = x :=
  neg_zero_add x

theorem total_append_singleton (xs : List Float) (x : Float) : total (xs ++ [x]) = total xs + x := by
  rw [total, List.foldl_append]
  rfl

/-- A series that is not empty has one sum, which is its total. -/
theorem isSum_iff {xs : List Float} (hxs : xs ≠ []) {sum : Float} :
    IsSum xs sum ↔ sum = total xs := by
  constructor
  · intro h
    induction h with
    | one x => exact (total_singleton x).symm
    | @more xs sum h x ih =>
      have hxs' : xs ≠ [] := by
        cases h
        · exact List.cons_ne_nil _ _
        · simp
      rw [total_append_singleton, ← ih hxs']
  · rintro rfl
    induction xs using List.reverseRecOn with
    | nil => exact absurd rfl hxs
    | append_singleton xs x ih =>
      by_cases hempty : xs = []
      · subst hempty
        rw [List.nil_append, total_singleton]
        exact .one x
      · rw [total_append_singleton]
        exact .more (ih hempty) x

/-! ## The rules -/

theorem descriptionRule_eq_ok_iff {line : List Char} {description : String} :
    descriptionRule line = .ok description ↔ line = description.toList := by
  rw [descriptionRule, Except.ok.injEq, ← String.toList_inj, String.toList_ofList]

theorem fieldRule_eq_ok_iff {α : Type} {field : Field} {read : List Char → Option α}
    {line : List Char} {a : α} :
    fieldRule field read line = .ok a ↔ IsField line fun text => read text = some a := by
  unfold fieldRule
  constructor
  · intro h
    split at h
    · cases h
    · next rest hrest =>
      rcases afterFirst_eq_some_iff.mp hrest with ⟨name, hline, hname⟩
      split at h
      · next b hread =>
        obtain rfl := Except.ok.inj h
        exact ⟨name, rest, trim rest, hline, hname, isTrimmed_trim rest, hread⟩
      · cases h
  · intro h
    rcases h with ⟨name, rest, value, hline, hname, htrim, hread⟩
    rw [afterFirst_eq_some_iff.mpr ⟨name, hline, hname⟩]
    simp only [htrim.trim_eq, hread]

theorem startRule_eq_ok_iff {line : List Char} {x : Float} :
    startRule line = .ok x ↔ IsField line fun text => IsReal text x := by
  simp only [startRule, fieldRule_eq_ok_iff, readReal?_eq_some_iff]

theorem channelsRule_eq_ok_iff {line : List Char} {channels : String} :
    channelsRule line = .ok channels ↔ IsField line fun text => text = channels.toList := by
  have hofList (text : List Char) :
      some (String.ofList text) = some channels ↔ text = channels.toList := by
    rw [Option.some.injEq, ← String.toList_inj, String.toList_ofList]
  simp only [channelsRule, fieldRule_eq_ok_iff, hofList]

theorem naturalRule_eq_ok_iff {field : Field} {limit : Nat} {line : List Char} {n : Nat} :
    fieldRule field (readNatural? limit) line = .ok n ↔
      IsField line fun text => IsNatural limit text n := by
  simp only [fieldRule_eq_ok_iff, readNatural?_eq_some_iff]

theorem IsField.natural_lt {limit : Nat} {line : List Char} {n : Nat}
    (h : IsField line fun text => IsNatural limit text n) : n < limit := by
  rcases h with ⟨name, rest, value, hline, hname, htrim, ds, hds, htext, hvalue, hlt⟩
  exact hlt

theorem rateRule_eq_ok_iff {field : Field} {line : List Char} {n : UInt32} :
    rateRule field line = .ok n ↔
      (IsField line fun text => IsNatural UInt32.size text n.toNat) ∧ 0 < n.toNat := by
  simp only [rateRule, bind_eq_ok_iff, naturalRule_eq_ok_iff]
  constructor
  · rintro ⟨k, hk, h⟩
    split at h
    · cases h
    · next hne =>
      obtain rfl := Except.ok.inj h
      rw [UInt32.toNat_ofNat_of_lt' hk.natural_lt]
      exact ⟨hk, Nat.pos_of_ne_zero hne⟩
  · intro h
    rcases h with ⟨hn, hpos⟩
    refine ⟨n.toNat, hn, ?_⟩
    rw [if_neg (Nat.ne_of_gt hpos), UInt32.ofNat_toNat]

theorem countRule_eq_ok_iff {field : Field} {line : List Char} {n : UInt64} :
    countRule field line = .ok n ↔ IsField line fun text => IsNatural UInt64.size text n.toNat := by
  simp only [countRule, bind_eq_ok_iff, naturalRule_eq_ok_iff]
  constructor
  · rintro ⟨k, hk, h⟩
    obtain rfl := Except.ok.inj h
    rwa [UInt64.toNat_ofNat_of_lt' hk.natural_lt]
  · intro hn
    exact ⟨n.toNat, hn, congrArg Except.ok UInt64.ofNat_toNat⟩

theorem blankRule_eq_ok_iff {line : List Char} {u : Unit} :
    blankRule line = .ok u ↔ IsBlankLine line := by
  rw [blankRule, IsBlankLine, ← allBlank_iff]
  split <;> simp_all

theorem isSample_iff {text : List Char} {x : Float} :
    IsSample text x ↔ readReal? (trim text) = some x := by
  rw [readReal?_eq_some_iff]
  constructor
  · rintro ⟨literal, htrim, hx⟩
    rwa [htrim.trim_eq]
  · intro hx
    exact ⟨trim text, isTrimmed_trim text, hx⟩

theorem eventRule_eq_ok_iff {start : Float} {line : List Char} {e : Event} :
    eventRule start line = .ok e ↔ IsEvent start line e := by
  unfold eventRule
  constructor
  · intro h
    split at h
    · next time label hpieces =>
      rcases pieces_eq_pair_iff.mp hpieces with ⟨hline, htime, hlabel⟩
      split at h
      · next nanos hread =>
        obtain rfl := Except.ok.inj h
        exact ⟨time, label, trim label, nanos, hline, htime, hlabel, isSample_iff.mpr hread,
          isTrimmed_trim label, rfl⟩
      · cases h
    · cases h
  · intro h
    rcases h with ⟨time, label, message, nanos, hline, htime, hlabel, hread, htrim, rfl⟩
    simp only [pieces_eq_pair_iff.mpr ⟨hline, htime, hlabel⟩, isSample_iff.mp hread, htrim.trim_eq]
    rfl

theorem sampleRule_eq_ok_iff {text : List Char} {x : Float} :
    sampleRule text = .ok x ↔ IsSample text x := by
  rw [sampleRule, isSample_iff]
  split <;> simp_all

theorem rowRule_eq_ok_iff {window : Nat} (hw : 0 < window) {line : List Char} {power : Float} :
    rowRule window line = .ok power ↔ IsRow window line power := by
  simp only [rowRule, bind_eq_ok_iff, mapM_eq_ok_iff, sampleRule_eq_ok_iff]
  constructor
  · rintro ⟨samples, hsamples, h⟩
    rcases pieces_eq_iff.mp (Eq.refl (pieces ',' line)) with ⟨hne, htokens, hline⟩
    split at h
    · cases h
    · next hlen =>
      obtain rfl := Except.ok.inj h
      have hlast : (samples.drop (samples.length - window)).length = window := by
        rw [List.length_drop]
        omega
      have hne' : samples.drop (samples.length - window) ≠ [] :=
        List.ne_nil_of_length_pos (by rwa [hlast])
      rw [← List.take_append_drop (samples.length - window) samples] at hsamples
      exact ⟨pieces ',' line, _, _, hne, hline, htokens, hsamples, hlast,
        (isSum_iff hne').mpr rfl⟩
  · intro h
    rcases h with ⟨tokens, front, last, hne, hline, htokens, hsamples, rfl, hsum⟩
    have hdrop : (front ++ last).drop ((front ++ last).length - last.length) = last := by
      rw [List.length_append, Nat.add_sub_cancel, List.drop_left]
    refine ⟨front ++ last, ?_, ?_⟩
    · rwa [pieces_eq_iff.mpr ⟨hne, htokens, hline⟩]
    · rw [if_neg (by simp), hdrop, (isSum_iff (List.ne_nil_of_length_pos hw)).mp hsum]

theorem readingRule_eq_ok_iff {window : Nat} (hw : 0 < window) {interval : Float} {index : Nat}
    {line : List Char} {r : Reading} :
    readingRule window interval index line = .ok r ↔
      IsRow window line r.power ∧ r.time = readingTime interval index := by
  simp only [readingRule, bind_eq_ok_iff, rowRule_eq_ok_iff hw]
  constructor
  · rintro ⟨power, hrow, h⟩
    obtain rfl := Except.ok.inj h
    exact ⟨hrow, rfl⟩
  · intro h
    rcases h with ⟨hrow, htime⟩
    refine ⟨r.power, hrow, ?_⟩
    rw [← htime]
    rfl

end PowerCurve.SessionLog
