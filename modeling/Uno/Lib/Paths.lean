import Mathlib.Data.List.Basic
import Mathlib.Tactic.Common
import Mathlib.Tactic.SplitIfs

/-!
# Pure paths

A path is a list of parts, and absolute or not. Parsing a text drops the empty parts and those that are a
dot, joining with an absolute path forgets what was there, and `..` stays a part like any other. A text that
joins parts none of which is dropped is parsed into them (`parse_intercalate`), and relative paths whose
parts have no slash are told apart by their texts (`str_inj`).
-/

structure PurePath where
  absolute : Bool
  parts : List (List Char)
  deriving DecidableEq

namespace PurePath

/-- A part that parsing drops. -/
def IsDropped (c : List Char) : Prop := c = [] ∨ c = ['.']

instance : DecidablePred IsDropped := fun _ => inferInstanceAs (Decidable (_ ∨ _))

/-- `Path(text)`. -/
def parse (text : List Char) : PurePath :=
  ⟨text.head? = some '/', (text.splitOn '/').filter fun c => ¬ IsDropped c⟩

/-- `path / text`. -/
def join (p : PurePath) (text : List Char) : PurePath :=
  if (parse text).absolute then parse text else ⟨p.absolute, p.parts ++ (parse text).parts⟩

/-- `Path(f"{path}{suffix}")`, for a path with parts and a suffix without slashes. -/
def addSuffix (p : PurePath) (suffix : List Char) : PurePath :=
  ⟨p.absolute, p.parts.dropLast ++ [p.parts.getLastD [] ++ suffix]⟩

def dotdot : List Char := ['.', '.']

/-- One part of a path, after the parts that are resolved. -/
def resolvePart (absolute : Bool) (parts : List (List Char)) (c : List Char) : List (List Char) :=
  if c ≠ dotdot then parts ++ [c]
  else if parts.getLastD dotdot ≠ dotdot then parts.dropLast
  else if absolute then parts else parts ++ [c]

/-- The path that a directory tree without links has for it: `..` takes back the part before it. -/
def resolve (p : PurePath) : PurePath := ⟨p.absolute, p.parts.foldl (resolvePart p.absolute) []⟩

/-- `str(path)`, for a path with parts. -/
def str (p : PurePath) : List Char := (if p.absolute then ['/'] else []) ++ ['/'].intercalate p.parts

/-! ### Texts of parts -/

/-- The text of a part that parsing keeps as it is. -/
structure IsPart (c : List Char) : Prop where
  not_dropped : ¬ IsDropped c
  slash_not_mem : '/' ∉ c

instance {c : List Char} : Decidable (IsPart c) :=
  decidable_of_iff (¬ IsDropped c ∧ '/' ∉ c) ⟨fun h => ⟨h.1, h.2⟩, fun h => ⟨h.not_dropped, h.slash_not_mem⟩⟩

theorem splitOn_intercalate {l : List (List Char)} (hl : l ≠ []) (h : ∀ c ∈ l, '/' ∉ c) :
    (['/'].intercalate l).splitOn '/' = l := List.splitOn_intercalate '/' h hl

theorem parts_parse {l : List (List Char)} (hl : l ≠ []) (h : ∀ c ∈ l, '/' ∉ c) :
    (parse (['/'].intercalate l)).parts = l.filter fun c => ¬ IsDropped c := by
  unfold parse
  rw [splitOn_intercalate hl h]

theorem absolute_parse {c : List Char} (hc : c ≠ []) (hslash : '/' ∉ c) (rest : List Char) :
    (parse (c ++ rest)).absolute = false := by
  cases c with
  | nil => exact absurd rfl hc
  | cons a c =>
    refine decide_eq_false fun h => hslash ?_
    rw [List.cons_append, List.head?_cons, Option.some.injEq] at h
    exact h ▸ List.mem_cons_self

theorem parse_eq {c : List Char} {l : List (List Char)} (hc : c ≠ []) (h : ∀ d ∈ c :: l, '/' ∉ d) :
    parse (['/'].intercalate (c :: l)) = ⟨false, (c :: l).filter fun d => ¬ IsDropped d⟩ := by
  have hslash := h c List.mem_cons_self
  have habsolute : (parse (['/'].intercalate (c :: l))).absolute = false := by
    cases l with
    | nil => simpa using absolute_parse hc hslash []
    | cons d l =>
      rw [List.intercalate_cons_cons, List.append_assoc]
      exact absolute_parse hc hslash _
  rw [← parts_parse (List.cons_ne_nil _ _) h, ← habsolute]

theorem parse_intercalate {c : List Char} {l : List (List Char)} (h : ∀ d ∈ c :: l, IsPart d) :
    parse (['/'].intercalate (c :: l)) = ⟨false, c :: l⟩ := by
  rw [parse_eq (fun hc => (h c List.mem_cons_self).not_dropped (.inl hc)) fun d hd => (h d hd).slash_not_mem,
    List.filter_eq_self.mpr fun d hd => decide_eq_true (h d hd).not_dropped]

theorem join_intercalate (p : PurePath) {c : List Char} {l : List (List Char)} (h : ∀ d ∈ c :: l, IsPart d) :
    p.join (['/'].intercalate (c :: l)) = ⟨p.absolute, p.parts ++ c :: l⟩ := by
  rw [join, parse_intercalate h, if_neg Bool.false_ne_true]

theorem splitOn_str {l : List (List Char)} (hl : l ≠ []) (h : ∀ c ∈ l, '/' ∉ c) :
    (str ⟨false, l⟩).splitOn '/' = l := splitOn_intercalate hl h

theorem str_inj {p q : PurePath} (hp : p.absolute = false) (hq : q.absolute = false) (hpne : p.parts ≠ [])
    (hqne : q.parts ≠ []) (hpslash : ∀ c ∈ p.parts, '/' ∉ c) (hqslash : ∀ c ∈ q.parts, '/' ∉ c)
    (h : p.str = q.str) : p = q := by
  obtain ⟨_, l⟩ := p
  obtain ⟨_, l'⟩ := q
  cases hp
  cases hq
  have hparts : l = l' :=
    (splitOn_str hpne hpslash).symm.trans ((congrArg (List.splitOn '/') h).trans (splitOn_str hqne hqslash))
  rw [hparts]

theorem isPart_append {c d : List Char} (hc : '/' ∉ c) (hd : '/' ∉ d) (hlength : 1 < d.length) : IsPart (c ++ d) := by
  refine ⟨?_, by simp [hc, hd]⟩
  rintro (h | h)
  · have hlen : (c ++ d).length = 0 := congrArg List.length h
    rw [List.length_append] at hlen
    omega
  · have hlen : (c ++ d).length = 1 := congrArg List.length h
    rw [List.length_append] at hlen
    omega

theorem resolve_eq_self {p : PurePath} (h : dotdot ∉ p.parts) : p.resolve = p := by
  have hfold : ∀ l before : List (List Char), dotdot ∉ l → l.foldl (resolvePart p.absolute) before = before ++ l := by
    intro l
    induction l with
    | nil => exact fun before _ => (List.append_nil before).symm
    | cons c l ih =>
      intro before hl
      rw [List.mem_cons, not_or] at hl
      rw [List.foldl_cons, resolvePart, if_pos (Ne.symm hl.1), ih _ hl.2, List.append_assoc]
      rfl
  rw [resolve, hfold _ _ h]
  rfl

/-- A path that resolving keeps has no `..` after two parts that are none. -/
theorem ne_dotdot_of_resolve {b : Bool} {a c d e : List Char} (ha : a ≠ dotdot) (hc : c ≠ dotdot)
    (h : resolve ⟨b, [a, c, d, e]⟩ = ⟨b, [a, c, d, e]⟩) : d ≠ dotdot := by
  rintro rfl
  have hparts : [a, c, dotdot].foldl (resolvePart b) [] = [a] := by
    simp [resolvePart, ha, hc]
  have hresolve : resolvePart b [a] e = [a, c, dotdot, e] := by
    have := (PurePath.mk.inj h).2
    rwa [show [a, c, dotdot, e] = [a, c, dotdot] ++ [e] from rfl, List.foldl_append, hparts] at this
  have hlength := congrArg List.length hresolve
  unfold resolvePart at hlength
  split_ifs at hlength <;> simp at hlength

end PurePath
