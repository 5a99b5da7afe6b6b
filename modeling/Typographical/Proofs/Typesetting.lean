import Typographical.Proofs.Printing
import Typographical.Proofs.Readability
import Typographical.Rendering

/-!
# Typeset texts can be read back

Typesetting replaces each character of a text by what the table has for it, or
leaves it as it is. What is written for the symbols of the table begins with a
space or a backslash, which terms and formulas are not printed with, and none of
it begins with another. So the characters of a text can be told from the typeset
text one after the other, although there are letters on both sides and nothing
marks where a replacement ends.
-/

namespace Typographical

namespace Rendering

variable {table : List (Char × String)} {marks : List Char} {c d : Char} {xs ys : List Char}

def written (table : List (Char × String)) (c : Char) : List Char :=
  ((table.lookup c).map String.toList).getD [c]

theorem insertion_symbols_nil : (symbols table).insertion [] = ([], 0) := by
  have hnone : (symbols table).find? true [] = none := by
    simp [ReplacementTable.find?, symbols]
  rw [ReplacementTable.insertion, hnone]

theorem find?_symbols_cons (table : List (Char × String)) (c : Char) (rest : List Char) :
    (symbols table).find? true (c :: rest) =
      (table.lookup c).map (fun text => ([c], text.toList)) := by
  induction table with
  | nil => rfl
  | cons e table ih =>
    obtain ⟨d, text⟩ := e
    by_cases hcd : c = d
    · simp [ReplacementTable.find?, symbols, hcd]
    · have hskip : (symbols ((d, text) :: table)).find? true (c :: rest) =
          (symbols table).find? true (c :: rest) := by
        simp [ReplacementTable.find?, symbols, Ne.symm hcd]
      have hlookup : ((d, text) :: table).lookup c = table.lookup c := by
        rw [List.lookup_cons, beq_false_of_ne hcd]
      rw [hskip, hlookup, ih]

theorem replaceAfter_symbols_cons (c : Char) (rest : List Char) :
    (symbols table).replaceAfter 0 (c :: rest) =
      written table c ++ (symbols table).replaceAfter 0 rest := by
  have hfind := find?_symbols_cons table c rest
  cases hlookup : table.lookup c with
  | none =>
    rw [hlookup] at hfind
    simp [ReplacementTable.replaceAfter, ReplacementTable.insertion, hfind, written, hlookup]
  | some text =>
    rw [hlookup] at hfind
    simp [ReplacementTable.replaceAfter, ReplacementTable.insertion, hfind, written, hlookup]

/-- Characters are replaced independently of each other. -/
theorem apply_symbols (table : List (Char × String)) (text : List Char) :
    (symbols table).apply text = text.flatMap (written table) := by
  rw [ReplacementTable.apply]
  induction text with
  | nil => rw [ReplacementTable.replaceAfter, insertion_symbols_nil, List.flatMap_nil]
  | cons c rest ih => rw [replaceAfter_symbols_cons, ih, List.flatMap_cons]

/-- What is written for the symbols of a table begins with one of the given
marks, and what is written for one symbol does not begin with what is written for
another. -/
structure Decodable (table : List (Char × String)) (marks : List Char) : Prop where
  marked : ∀ e ∈ table, e.2.toList.head?.any (· ∈ marks) = true
  apart : ∀ e ∈ table, ∀ e' ∈ table, e.2.toList <+: e'.2.toList → e.1 = e'.1

theorem written_cases (table : List (Char × String)) (c : Char) :
    written table c = [c] ∨ ∃ text, (c, text) ∈ table ∧ written table c = text.toList := by
  cases hlookup : table.lookup c with
  | none => exact Or.inl (by simp [written, hlookup])
  | some text =>
    refine Or.inr ⟨text, ?_, by simp [written, hlookup]⟩
    obtain ⟨before, behind, rfl, -⟩ := List.lookup_eq_some_iff.mp hlookup
    simp

namespace Decodable

theorem exists_mark (h : Decodable table marks) {text : String} (hmem : (c, text) ∈ table) :
    ∃ m ∈ marks, ∃ rest, text.toList = m :: rest := by
  obtain ⟨m, hhead, hm⟩ := (Option.any_eq_true _ _).mp (h.marked _ hmem)
  exact ⟨m, of_decide_eq_true hm, List.head?_eq_some_iff.mp hhead⟩

theorem ne_marked (h : Decodable table marks) {text : String} (hmem : (d, text) ∈ table)
    (hc : c ∉ marks) : c :: xs ≠ text.toList ++ ys := by
  intro heq
  obtain ⟨m, hm, rest, hrest⟩ := h.exists_mark hmem
  rw [hrest] at heq
  have hcm : c = m := (List.cons.inj heq).1
  exact hc (hcm ▸ hm)

theorem written_ne_nil (h : Decodable table marks) (c : Char) : written table c ≠ [] := by
  intro hnil
  rcases written_cases table c with hc | ⟨text, hmem, hc⟩
  · rw [hc] at hnil
    cases hnil
  · obtain ⟨m, -, rest, hrest⟩ := h.exists_mark hmem
    rw [← hc, hnil] at hrest
    cases hrest

/-- The first character is told by what a typeset text begins with: of two beginnings of the
same text one begins the other. -/
theorem written_append_inj (h : Decodable table marks) (hc : c ∉ marks) (hd : d ∉ marks)
    (heq : written table c ++ xs = written table d ++ ys) : c = d ∧ xs = ys := by
  have hcd : c = d := by
    rcases written_cases table c with hwc | ⟨text, hmem, hwc⟩
    · rcases written_cases table d with hwd | ⟨text', hmem', hwd⟩
      · rw [hwc, hwd] at heq
        exact (List.cons.inj heq).1
      · rw [hwc, hwd] at heq
        exact absurd heq (h.ne_marked hmem' hc)
    · rcases written_cases table d with hwd | ⟨text', hmem', hwd⟩
      · rw [hwc, hwd] at heq
        exact absurd heq.symm (h.ne_marked hmem hd)
      · rw [hwc, hwd] at heq
        have hle := List.prefix_append text.toList xs
        have hle' : text'.toList <+: text.toList ++ xs := heq ▸ List.prefix_append _ ys
        rcases List.prefix_or_prefix_of_prefix hle hle' with hpre | hpre
        · exact h.apart _ hmem _ hmem' hpre
        · exact (h.apart _ hmem' _ hmem hpre).symm
  subst hcd
  exact ⟨rfl, List.append_cancel_left heq⟩

/-- A text without marks is determined by what it is replaced with. -/
theorem eq_of_apply_eq (h : Decodable table marks) (hxs : ∀ c ∈ xs, c ∉ marks)
    (hys : ∀ c ∈ ys, c ∉ marks)
    (heq : (symbols table).apply xs = (symbols table).apply ys) : xs = ys := by
  rw [apply_symbols, apply_symbols] at heq
  induction xs generalizing ys with
  | nil =>
    cases ys with
    | nil => rfl
    | cons d ys =>
      have hnil := (List.append_eq_nil_iff.mp heq.symm).1
      exact absurd hnil (h.written_ne_nil d)
  | cons c xs ih =>
    cases ys with
    | nil =>
      have hnil := (List.append_eq_nil_iff.mp heq).1
      exact absurd hnil (h.written_ne_nil c)
    | cons d ys =>
      rw [List.forall_mem_cons] at hxs hys
      rw [List.flatMap_cons, List.flatMap_cons] at heq
      obtain ⟨rfl, hrest⟩ := h.written_append_inj hxs.1 hys.1 heq
      rw [ih hxs.2 hys.2 hrest]

end Decodable

theorem decodable_latexTable : Decodable latexTable [' ', '\\'] where
  marked := by decide
  apart := by decide

theorem notMem_marks (h : Grammar.inAlphabet c = true) : c ∉ [' ', '\\'] := by
  intro hc
  rcases List.mem_pair.mp hc with rfl | rfl
  · exact absurd h (by decide)
  · exact absurd h (by decide)

theorem eq_of_latex_eq (hxs : ∀ c ∈ xs, Grammar.inAlphabet c = true)
    (hys : ∀ c ∈ ys, Grammar.inAlphabet c = true)
    (h : latex (String.ofList xs) = latex (String.ofList ys)) : xs = ys := by
  rw [latex, latex, String.toList_ofList, String.toList_ofList, String.ofList_inj] at h
  exact decodable_latexTable.eq_of_apply_eq (fun c hc => notMem_marks (hxs c hc))
    (fun c hc => notMem_marks (hys c hc)) h

/-- Whatever is readable and printed with the alphabet can be told from its typeset
text. -/
theorem injective_latex {α : Type} {print : α → List Char} (readable : ∀ a, Readable print a)
    (printed : ∀ a, ∀ c ∈ print a, Grammar.inAlphabet c = true) :
    Function.Injective (fun a => latex (String.ofList (print a))) := by
  intro a b h
  have hchars : print a = print b := eq_of_latex_eq (printed a) (printed b) h
  exact (readable a).text_eq_iff.mpr (congrArg String.ofList hchars)

/-- Terms that are typeset alike are equal, and so are formulas, be they well
quantified or not. -/
theorem latex_loses_nothing :
    Function.Injective (fun t : Term => latex t.text) ∧
      Function.Injective (fun f : Formula => latex f.text) := by
  constructor
  · exact injective_latex Term.readable_chars (fun _ _ => Term.inAlphabet_of_mem_chars)
  · exact injective_latex Formula.readable_chars (fun _ _ => Formula.inAlphabet_of_mem_chars)

end Rendering

end Typographical
