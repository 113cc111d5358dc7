import Mathlib.Data.List.DropRight
import PowerCurve.Text.Blank

/-!
# White space around a text

The blank characters are the 25 characters with the Unicode property `White_Space` (`isBlank_iff`).
Trimming takes away all of them that stand at the two ends of a text, and nothing else
(`trim_eq_iff`).
-/

namespace PowerCurve.Text

/-- The characters with the property `White_Space`, one by one. -/
def whiteSpace : List Char :=
  ['\t', '\n', '\x0b', '\x0c', '\r', ' ', '\x85', '\xa0', '\u1680', '\u2000', '\u2001', '\u2002',
    '\u2003', '\u2004', '\u2005', '\u2006', '\u2007', '\u2008', '\u2009', '\u200a', '\u2028',
    '\u2029', '\u202f', '\u205f', '\u3000']

theorem isBlank_iff {c : Char} : isBlank c = true ↔ c ∈ whiteSpace := by
  simp only [isBlank, blankRanges, whiteSpace, List.any_cons, List.any_nil, Bool.or_false,
    Bool.or_eq_true, Bool.and_eq_true, decide_eq_true_eq, List.mem_cons, List.not_mem_nil, or_false,
    ← Char.toNat_inj, Char.reduceToNat]
  omega

/-- White space only. -/
def IsWhite (text : List Char) : Prop :=
  ∀ c ∈ text, c ∈ whiteSpace

theorem allBlank_iff {text : List Char} : allBlank text = true ↔ IsWhite text := by
  simp only [allBlank, List.all_eq_true, isBlank_iff, IsWhite]

/-- The body of a text is what stands between the white space at its two ends. -/
def IsTrimmed (text body : List Char) : Prop :=
  ∃ before after, text = before ++ (body ++ after) ∧ IsWhite before ∧ IsWhite after ∧
    (∀ c ∈ body.head?, c ∉ whiteSpace) ∧ ∀ c ∈ body.getLast?, c ∉ whiteSpace

theorem trim_eq (text : List Char) : trim text = (text.dropWhile isBlank).rdropWhile isBlank := rfl

/-- What stands first after the white space is dropped is none. -/
theorem notMem_of_head?_dropWhile {text : List Char} {c : Char}
    (h : (text.dropWhile isBlank).head? = some c) : c ∉ whiteSpace := by
  have hfirst := List.head?_dropWhile_not isBlank text
  rw [h] at hfirst
  rw [← isBlank_iff, hfirst]
  exact Bool.false_ne_true

theorem dropWhile_of_first {text : List Char} (h : ∀ c ∈ text.head?, c ∉ whiteSpace) :
    text.dropWhile isBlank = text := by
  cases text with
  | nil => rfl
  | cons c text => exact List.dropWhile_cons_of_neg (mt isBlank_iff.mp (h c rfl))

/-- What is left of a text has no white space at its ends. -/
theorem isTrimmed_trim (text : List Char) : IsTrimmed text (trim text) := by
  refine ⟨text.takeWhile isBlank, (text.dropWhile isBlank).rtakeWhile isBlank, ?_, ?_, ?_, ?_, ?_⟩
  · rw [trim_eq, List.rdropWhile_append_rtakeWhile, List.takeWhile_append_dropWhile]
  · intro c hc
    exact isBlank_iff.mp (List.mem_takeWhile_imp hc)
  · intro c hc
    exact isBlank_iff.mp (List.mem_rtakeWhile_imp hc)
  · intro c hc
    -- the text that is left begins where the white space in front ends
    rcases List.rdropWhile_prefix isBlank (text.dropWhile isBlank) with ⟨after, hafter⟩
    have hfirst : (text.dropWhile isBlank).head? = some c := by
      rw [← hafter, List.head?_append, ← trim_eq, hc]
      rfl
    exact notMem_of_head?_dropWhile hfirst
  · intro c hc
    have hlast : ((text.dropWhile isBlank).reverse.dropWhile isBlank).head? = some c := by
      rwa [← List.getLast?_reverse]
    exact notMem_of_head?_dropWhile hlast

/-- There is only one way to trim a text. -/
theorem IsTrimmed.trim_eq {text body : List Char} (h : IsTrimmed text body) : trim text = body := by
  rcases h with ⟨before, after, rfl, hbefore, hafter, hfirst, hlast⟩
  have hafter' : ∀ c ∈ after, isBlank c = true := fun c hc => isBlank_iff.mpr (hafter c hc)
  rw [Text.trim_eq, List.dropWhile_append_of_pos fun c hc => isBlank_iff.mpr (hbefore c hc)]
  cases body with
  | nil =>
    -- nothing but white space is dropped as a whole
    rw [List.nil_append, List.dropWhile_eq_nil_iff.mpr hafter']
    rfl
  | cons c body =>
    rw [dropWhile_of_first (by rwa [List.cons_append])]
    have hlast' : ∀ c' ∈ (c :: body).reverse.head?, c' ∉ whiteSpace := by
      rwa [List.head?_reverse]
    rw [List.rdropWhile, List.reverse_append, List.dropWhile_append_of_pos,
      dropWhile_of_first hlast', List.reverse_reverse]
    intro c hc
    exact hafter' c (List.mem_reverse.mp hc)

/-- **Trimming leaves the body of a text.** -/
theorem trim_eq_iff {text body : List Char} : trim text = body ↔ IsTrimmed text body := by
  constructor
  · rintro rfl
    exact isTrimmed_trim text
  · exact IsTrimmed.trim_eq

end PowerCurve.Text
