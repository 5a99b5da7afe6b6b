import Mathlib.Data.Nat.Digits.Lemmas
import Typographical.Arithmetization
import Typographical.Axioms
import Typographical.Proofs.Bytes
import Typographical.Proofs.Reading

/-!
# Texts from their numbers

A number has one list of digits in base 256 that does not begin with a zero, and
these digits are the bytes of a text or of none. So exactly the byte strings that
begin with no zero byte are found again from their numbers; the empty one is not
looked for, since no text is given back for zero.

Texts on lines of their own are found again if no one of them has a line feed in
it, as it is with printed formulas.
-/

namespace Typographical

namespace Arithmetization

open Utf8 (toList_eq_data toList_toByteArray toByteArray_toList)

theorem toBytes_eq_digits (n : Nat) :
    toBytes n = (Nat.digits 256 n).reverse.map UInt8.ofNat := by
  fun_induction toBytes n with
  | case1 => rfl
  | case2 n h ih =>
    rw [ih, Nat.digits_def' (by decide) (Nat.pos_of_ne_zero h)]
    simp

theorem ofBytes_eq_ofDigits (bytes : List UInt8) :
    ofBytes bytes = Nat.ofDigits 256 (bytes.reverse.map UInt8.toNat) := by
  induction bytes using List.reverseRecOn with
  | nil => rfl
  | append_singleton bytes b ih =>
    have hstep : ofBytes (bytes ++ [b]) = ofBytes bytes * 256 + b.toNat := by
      rw [ofBytes, List.foldl_append]
      rfl
    rw [hstep, ih, List.reverse_append, List.reverse_singleton, List.singleton_append,
      List.map_cons, Nat.ofDigits_cons]
    ring

theorem map_toNat_digits (n : Nat) :
    ((Nat.digits 256 n).map UInt8.ofNat).map UInt8.toNat = Nat.digits 256 n := by
  rw [List.map_map]
  conv_rhs => rw [← List.map_id (Nat.digits 256 n)]
  refine List.map_congr_left ?_
  intro d hd
  exact UInt8.toNat_ofNat_of_lt' (Nat.digits_lt_base (by decide) hd)

theorem ofBytes_toBytes (n : Nat) : ofBytes (toBytes n) = n := by
  rw [ofBytes_eq_ofDigits, toBytes_eq_digits, ← List.map_reverse, List.reverse_reverse,
    map_toNat_digits, Nat.ofDigits_digits]

theorem head?_toBytes (n : Nat) : (toBytes n).head? ≠ some 0 := by
  intro h
  rw [toBytes_eq_digits, List.head?_map, List.head?_reverse] at h
  obtain ⟨d, hd, hzero⟩ := Option.map_eq_some_iff.mp h
  have hmem : d ∈ Nat.digits 256 n := List.mem_of_getLast? hd
  have hlt : d < 256 := Nat.digits_lt_base (by decide) hmem
  have hd0 : d = 0 := by
    rw [← UInt8.toNat_ofNat_of_lt' hlt, hzero]
    rfl
  have hne : Nat.digits 256 n ≠ [] := List.ne_nil_of_mem hmem
  refine Nat.getLast_digit_ne_zero 256 (Nat.digits_ne_nil_iff_ne_zero.mp hne) ?_
  rw [List.getLast?_eq_some_getLast hne, hd0] at hd
  exact Option.some.inj hd

/-- Bytes that begin with no zero are the digits of their number. -/
theorem toBytes_ofBytes {bytes : List UInt8} (h : bytes.head? ≠ some 0) :
    toBytes (ofBytes bytes) = bytes := by
  have hdigits : Nat.digits 256 (ofBytes bytes) = bytes.reverse.map UInt8.toNat := by
    rw [ofBytes_eq_ofDigits]
    refine Nat.digits_ofDigits 256 (by decide) _ ?_ ?_
    · intro d hd
      obtain ⟨b, -, rfl⟩ := List.mem_map.mp hd
      exact b.toNat_lt
    · intro hne hlast
      rw [List.getLast_map, List.getLast_reverse] at hlast
      have hbytes : bytes ≠ [] := by
        rintro rfl
        exact hne rfl
      have hhead : bytes.head hbytes = 0 := UInt8.toNat_inj.mp hlast
      rw [List.head?_eq_some_head hbytes, hhead] at h
      exact h rfl
  rw [toBytes_eq_digits, hdigits, ← List.map_reverse, List.reverse_reverse, List.map_map]
  conv_rhs => rw [← List.map_id bytes]
  refine List.map_congr_left ?_
  intro b _
  exact UInt8.ofNat_toNat

theorem ofBytes_pos {bytes : List UInt8} (hne : bytes ≠ []) (h : bytes.head? ≠ some 0) :
    0 < ofBytes bytes := by
  refine Nat.pos_of_ne_zero ?_
  intro hzero
  have hround := toBytes_ofBytes h
  rw [hzero, toBytes] at hround
  exact hne hround.symm

theorem fromUTF8?_eq_some_iff {b : ByteArray} {text : String} :
    String.fromUTF8? b = some text ↔ text.toUTF8 = b := by
  rw [String.fromUTF8?]
  constructor
  · intro h
    split at h
    · cases h
      rfl
    · cases h
  · rintro rfl
    have hvalid : text.toUTF8.IsValidUTF8 := text.isValidUTF8
    rw [dif_pos hvalid]
    rfl

theorem fromUTF8?_eq_none_iff {b : ByteArray} :
    String.fromUTF8? b = none ↔ ¬ b.IsValidUTF8 := by
  rw [String.fromUTF8?, dite_eq_right_iff]
  simp

theorem toUTF8_eq_of_toList {text : String} {c : Char} {cs : List Char}
    (h : text.toList = c :: cs) :
    text.toUTF8 = (String.utf8EncodeChar c).toByteArray ++ cs.utf8Encode := by
  rw [String.toUTF8_eq_toByteArray, ← String.utf8Encode_toList, h, List.utf8Encode_cons,
    List.utf8Encode_singleton]

theorem toUTF8_toList_eq_nil_iff {text : String} : text.toUTF8.toList = [] ↔ text = "" := by
  rw [← String.toByteArray_eq_empty_iff, ← String.toUTF8_eq_toByteArray]
  constructor
  · intro h
    rw [← toByteArray_toList text.toUTF8, h, List.toByteArray_nil]
  · intro h
    rw [h, ByteArray.toList_empty]

/-- The bytes of a text begin with zero if the text begins with the character
zero, and only then, since this is what decoding finds there. -/
theorem head?_toUTF8_toList_iff {text : String} :
    text.toUTF8.toList.head? = some 0 ↔ text.toList.head? = some '\x00' := by
  have hchar : String.utf8EncodeChar '\x00' = [0] := rfl
  cases hchars : text.toList with
  | nil =>
    rw [toUTF8_toList_eq_nil_iff.mpr (String.toList_eq_nil_iff.mp hchars)]
    simp
  | cons c cs =>
    have hbytes := toUTF8_eq_of_toList hchars
    constructor
    · intro h
      obtain ⟨rest, hrest⟩ := List.head?_eq_some_iff.mp h
      have hzero : text.toUTF8.utf8DecodeChar? 0 = some '\x00' := by
        rw [← toByteArray_toList text.toUTF8, hrest, ← List.singleton_append, ← hchar,
          List.toByteArray_append, ByteArray.utf8DecodeChar?_utf8EncodeChar_append]
      rw [hbytes, ByteArray.utf8DecodeChar?_utf8EncodeChar_append] at hzero
      exact hzero
    · intro h
      rw [hbytes, Option.some.inj h, hchar, toList_eq_data, ByteArray.toList_data_append,
        List.toList_data_toByteArray]
      rfl

theorem decode_eq_ok_iff {n : Int} {text : String} :
    decode n = .ok text ↔ 0 < n ∧ text.toUTF8.toList = toBytes n.toNat := by
  rw [decode]
  split
  · next hn =>
    constructor
    · intro h
      cases h
    · rintro ⟨hpos, -⟩
      omega
  · next hn =>
    have hpos : 0 < n := by omega
    have hbytes : String.fromUTF8? (toBytes n.toNat).toByteArray = some text ↔
        text.toUTF8.toList = toBytes n.toNat := by
      rw [fromUTF8?_eq_some_iff]
      constructor
      · intro h
        rw [h, toList_toByteArray]
      · intro h
        rw [← h, toByteArray_toList]
    rw [← hbytes]
    cases hfound : String.fromUTF8? (toBytes n.toNat).toByteArray with
    | none => simp
    | some found => simp [hpos]

theorem decode_eq_error_iff {n : Int} :
    decode n = .error .notGodelNumber ↔ n ≤ 0 ∨ ¬ (toBytes n.toNat).toByteArray.IsValidUTF8 := by
  rw [← fromUTF8?_eq_none_iff, decode]
  split
  · next hn => simp [hn]
  · next hn =>
    cases hfound : String.fromUTF8? (toBytes n.toNat).toByteArray with
    | none => simp
    | some text => simp [hn]

theorem decode_ofBytes_iff {bytes : List UInt8} :
    (∃ text, decode (ofBytes bytes) = .ok text ∧ text.toUTF8.toList = bytes) ↔
      bytes ≠ [] ∧ bytes.toByteArray.IsValidUTF8 ∧ bytes.head? ≠ some 0 := by
  constructor
  · rintro ⟨text, hdecode, htext⟩
    obtain ⟨hpos, hbytes⟩ := decode_eq_ok_iff.mp hdecode
    rw [htext, Int.toNat_natCast] at hbytes
    refine ⟨?_, ?_, ?_⟩
    · rintro rfl
      exact absurd hpos (by decide)
    · rw [← htext, toByteArray_toList]
      exact text.isValidUTF8
    · rw [hbytes]
      exact head?_toBytes _
  · rintro ⟨hne, hvalid, hhead⟩
    have hpos := ofBytes_pos hne hhead
    have htext : (String.fromUTF8 bytes.toByteArray hvalid).toUTF8.toList = bytes :=
      toList_toByteArray bytes
    refine ⟨_, decode_eq_ok_iff.mpr ⟨by omega, ?_⟩, htext⟩
    rw [htext, Int.toNat_natCast, toBytes_ofBytes hhead]

theorem encode_of_decode {n : Int} {text : String} (h : decode n = .ok text) :
    (encode text : Int) = n := by
  obtain ⟨hpos, hbytes⟩ := decode_eq_ok_iff.mp h
  rw [encode, hbytes, ofBytes_toBytes]
  omega

theorem decode_encode_iff {text : String} :
    decode (encode text) = .ok text ↔ text ≠ "" ∧ text.toList.head? ≠ some '\x00' := by
  have hbytes : decode (encode text) = .ok text ↔
      ∃ found, decode (encode text) = .ok found ∧ found.toUTF8.toList = text.toUTF8.toList := by
    constructor
    · intro h
      exact ⟨text, h, rfl⟩
    · rintro ⟨found, h, hsame⟩
      have hfound : found = text := by
        rw [← String.toByteArray_inj, ← String.toUTF8_eq_toByteArray,
          ← toByteArray_toList found.toUTF8, hsame, toByteArray_toList,
          String.toUTF8_eq_toByteArray]
      rw [h, hfound]
  have hvalid : text.toUTF8.toList.toByteArray.IsValidUTF8 := by
    rw [toByteArray_toList]
    exact text.isValidUTF8
  rw [hbytes, encode, decode_ofBytes_iff, Ne, toUTF8_toList_eq_nil_iff, Ne,
    head?_toUTF8_toList_iff]
  tauto

theorem lines_eq_splitOn (cs : List Char) : lines cs = cs.splitOn '\n' := by
  induction cs with
  | nil => rfl
  | cons c cs ih =>
    rw [List.splitOn_cons_eq_if_modifyHead, lines, ih]
    cases hsplit : cs.splitOn '\n' with
    | nil => exact absurd hsplit (List.splitOn_ne_nil _ _)
    | cons line more =>
      by_cases hc : c = '\n'
      · simp [hc]
      · simp [hc]

/-- Texts without line feeds are found again if the first of them is not empty and
begins with a character other than zero. -/
theorem decodeAll_encodeAll {text : String} {texts : List String} (hne : text ≠ "")
    (hzero : '\x00' ∉ text.toList) (hlines : ∀ t ∈ text :: texts, '\n' ∉ t.toList) :
    decodeAll (encodeAll (text :: texts)) = .ok (text :: texts) := by
  obtain ⟨c, cs, hchars⟩ : ∃ c cs, text.toList = c :: cs :=
    List.exists_cons_of_ne_nil (fun hnil => hne (String.toList_eq_nil_iff.mp hnil))
  have hhead : ("\n".intercalate (text :: texts)).toList.head? = some c := by
    cases texts with
    | nil => simp [hchars]
    | cons next more => simp [hchars]
  have hdecode : decode (encode ("\n".intercalate (text :: texts))) =
      .ok ("\n".intercalate (text :: texts)) := by
    refine decode_encode_iff.mpr ⟨?_, ?_⟩
    · intro hempty
      rw [hempty] at hhead
      cases hhead
    · rw [hhead]
      rintro ⟨rfl⟩
      simp [hchars] at hzero
  have hsplit : lines ("\n".intercalate (text :: texts)).toList =
      (text :: texts).map String.toList := by
    rw [lines_eq_splitOn, String.toList_intercalate]
    refine List.splitOn_intercalate '\n' ?_ (by simp)
    simpa using hlines
  rw [decodeAll, encodeAll, hdecode, Except.map, hsplit, List.map_map]
  simp

theorem notMem_text (f : Formula) {c : Char} (h : Grammar.inAlphabet c = false) :
    c ∉ f.text.toList := by
  rw [Formula.text, String.toList_ofList]
  intro hmem
  rw [Formula.inAlphabet_of_mem_chars hmem] at h
  cases h

/-- A byte string is found again from its number exactly if it is the UTF-8 form
of a text, not empty, and does not begin with a zero byte; the number of a text is
that of its bytes. A number from which a text is found is the number of that text,
and none is found exactly if the number is not positive or its digits in base 256,
the first of which is not zero, are no UTF-8. The texts of formulas, one on each
line, are found again, and each is read as its formula if that is well quantified. -/
theorem arithmetization_invertible :
    (∀ bytes : List UInt8,
      (∃ text, decode (ofBytes bytes) = .ok text ∧ text.toUTF8.toList = bytes) ↔
        bytes ≠ [] ∧ bytes.toByteArray.IsValidUTF8 ∧ bytes.head? ≠ some 0) ∧
    (∀ text : String, encode text = ofBytes text.toUTF8.toList ∧
      (decode (encode text) = .ok text ↔ text ≠ "" ∧ text.toList.head? ≠ some '\x00')) ∧
    (∀ (n : Int) (text : String), decode n = .ok text → (encode text : Int) = n) ∧
    (∀ n : Int, decode n = .error .notGodelNumber ↔
      n ≤ 0 ∨
        ¬ ((Nat.digits 256 n.toNat).reverse.map UInt8.ofNat).toByteArray.IsValidUTF8) ∧
    ∀ fs : List Formula, fs ≠ [] →
      decodeAll (encodeAll (fs.map Formula.text)) = .ok (fs.map Formula.text) ∧
      ∀ f ∈ fs, f.checkWellFormed = .ok () → Formula.parse f.text = .ok f := by
  refine ⟨fun _ => decode_ofBytes_iff, fun _ => ⟨rfl, decode_encode_iff⟩,
    fun _ _ => encode_of_decode, ?_, ?_⟩
  · intro n
    rw [← toBytes_eq_digits]
    exact decode_eq_error_iff
  · intro fs hfs
    refine ⟨?_, fun f _ => Formula.parse_text_eq_ok_iff.mpr⟩
    obtain ⟨f, rest, rfl⟩ := List.exists_cons_of_ne_nil hfs
    refine decodeAll_encodeAll f.text_ne_empty (notMem_text f (by decide)) ?_
    intro text htext
    rw [← List.map_cons] at htext
    obtain ⟨g, -, rfl⟩ := List.mem_map.mp htext
    exact notMem_text g (by decide)

/-- The number of an equality, and the axioms of arithmetic on five lines. -/
theorem arithmetization_invertible_peano :
    let f : Formula := .equality (.product Axioms.first .zero) .zero
    (decode 3161392 = .ok "0=0" ∧ (encode "0=0" : Int) = 3161392) ∧
      decodeAll (encodeAll (Axioms.peano.map Formula.text)) =
        .ok (Axioms.peano.map Formula.text) ∧
      f ∈ Axioms.peano ∧ f.checkWellFormed = .ok () ∧ Formula.parse f.text = .ok f := by
  intro f
  have hdecode : decode 3161392 = .ok "0=0" := by decide +kernel
  have hmem : f ∈ Axioms.peano := by
    subst f
    decide
  obtain ⟨-, -, hnumber, -, hlines⟩ := arithmetization_invertible
  obtain ⟨hfound, hread⟩ := hlines Axioms.peano (by decide)
  exact ⟨⟨hdecode, hnumber _ _ hdecode⟩, hfound, hmem, rfl, hread f hmem rfl⟩

end Arithmetization

end Typographical
