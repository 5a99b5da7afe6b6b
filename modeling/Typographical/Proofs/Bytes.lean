import Mathlib.Data.List.Basic
import Typographical.Text.Utf8

/-!
# Bytes and the characters read from them

Reading bytes as characters goes on from where the last character ended, so the
characters of a byte string are those of its first part followed by those of the
rest, provided that the rest does not begin within a character. A byte that begins
no valid sequence keeps doing so whatever is appended, since a sequence that it
began would have to reach into what is appended with a byte that can stand within a
character only.
-/

namespace Typographical

namespace Utf8

theorem toList_eq_data (b : ByteArray) : b.toList = b.data.toList := by
  have hloop : ∀ i r, ByteArray.toList.loop b i r = r.reverse ++ b.data.toList.drop i := by
    intro i r
    fun_induction ByteArray.toList.loop b i r with
    | case1 i r hlt ih =>
      have hi : i < b.data.toList.length := by simpa using hlt
      have hget : b.get! i = b.data.toList[i] := by
        rw [Array.getElem_toList]
        exact getElem!_pos b.data i hlt
      rw [ih, List.drop_eq_getElem_cons hi, hget]
      simp
    | case2 i r hge =>
      have hi : b.data.toList.length ≤ i := by simpa using hge
      rw [List.drop_eq_nil_of_le hi, List.append_nil]
  exact hloop 0 []

theorem toList_toByteArray (bytes : List UInt8) : bytes.toByteArray.toList = bytes := by
  rw [toList_eq_data, List.toList_data_toByteArray]

theorem toByteArray_toList (b : ByteArray) : b.toList.toByteArray = b := by
  rw [toList_eq_data]
  apply ByteArray.ext
  rw [List.data_toByteArray]

@[simp]
theorem toList_append (a b : ByteArray) : (a ++ b).toList = a.toList ++ b.toList := by
  rw [toList_eq_data, toList_eq_data, toList_eq_data, ByteArray.toList_data_append]

theorem toList_injective {a b : ByteArray} (h : a.toList = b.toList) : a = b := by
  rw [← toByteArray_toList a, h, toByteArray_toList]

variable {a b : ByteArray} {c : Char} {n m i : Nat}

/-- What stands before the place where reading goes on does not matter. -/
theorem charsFrom_append (a b : ByteArray) (n i : Nat) :
    charsFrom (a ++ b) n (a.size + i) = charsFrom b n i := by
  induction n generalizing i with
  | zero => rfl
  | succ n ih =>
    have hdecode : (a ++ b).utf8DecodeChar? (a.size + i) = b.utf8DecodeChar? i := by
      rw [ByteArray.utf8DecodeChar?_eq_utf8DecodeChar?_extract,
        ByteArray.utf8DecodeChar?_eq_utf8DecodeChar?_extract (b := b)]
      rw [ByteArray.size_append, ByteArray.extract_append_size_add]
    have hlt : a.size + i < (a ++ b).size ↔ i < b.size := by
      rw [ByteArray.size_append]
      omega
    simp only [charsFrom, hdecode, hlt, Nat.add_assoc, ih]

/-- More rounds than there are bytes left make no difference. -/
theorem charsFrom_eq (hn : b.size ≤ i + n) (hm : b.size ≤ i + m) :
    charsFrom b n i = charsFrom b m i := by
  induction n generalizing i m with
  | zero =>
    cases m with
    | zero => rfl
    | succ m => simp only [charsFrom, if_neg (show ¬ i < b.size by omega)]
  | succ n ih =>
    cases m with
    | zero => simp only [charsFrom, if_neg (show ¬ i < b.size by omega)]
    | succ m =>
      simp only [charsFrom]
      split
      · split
        · next c _ =>
          have := c.utf8Size_pos
          rw [ih (by omega) (show b.size ≤ i + c.utf8Size + m by omega)]
        · rw [ih (by omega) (show b.size ≤ i + 1 + m by omega)]
      · rfl

/-- One character more. -/
theorem chars_utf8EncodeChar_append (c : Char) (b : ByteArray) :
    chars ((String.utf8EncodeChar c).toByteArray ++ b) = c :: chars b := by
  have hsize : (String.utf8EncodeChar c).toByteArray.size = c.utf8Size := by simp
  have hpos := c.utf8Size_pos
  have hwhole : ((String.utf8EncodeChar c).toByteArray ++ b).size =
      (c.utf8Size - 1 + b.size) + 1 := by
    rw [ByteArray.size_append, hsize]
    omega
  rw [chars, hwhole, charsFrom, if_pos (by omega), ByteArray.utf8DecodeChar?_utf8EncodeChar_append]
  dsimp only
  rw [Nat.zero_add, ← hsize, ← Nat.add_zero (ByteArray.size _), charsFrom_append,
    charsFrom_eq (by omega) (show b.size ≤ 0 + b.size by omega)]
  rfl

/-- One byte that begins no valid sequence. -/
theorem chars_singleton_append {x : UInt8}
    (h : ([x].toByteArray ++ b).utf8DecodeChar? 0 = none) :
    chars ([x].toByteArray ++ b) = replacement :: chars b := by
  have hsize : [x].toByteArray.size = 1 := rfl
  have hwhole : ([x].toByteArray ++ b).size = b.size + 1 := by
    rw [ByteArray.size_append, hsize, Nat.add_comm]
  rw [chars, hwhole, charsFrom, if_pos (by omega), h]
  dsimp only
  exact congrArg (replacement :: ·) (charsFrom_append [x].toByteArray b b.size 0)

theorem chars_empty : chars .empty = [] := rfl

theorem bytes_eq (cs : List Char) : bytes cs = cs.utf8Encode := by
  rw [bytes, String.toUTF8_eq_toByteArray, ← String.utf8Encode_toList, String.toList_ofList]

theorem bytes_cons (c : Char) (cs : List Char) :
    bytes (c :: cs) = (String.utf8EncodeChar c).toByteArray ++ bytes cs := by
  rw [bytes_eq, bytes_eq, List.utf8Encode_cons, List.utf8Encode_singleton]

theorem chars_bytes_append (cs : List Char) (b : ByteArray) :
    chars (bytes cs ++ b) = cs ++ chars b := by
  induction cs with
  | nil => rw [bytes_eq, List.utf8Encode_nil, ByteArray.empty_append, List.nil_append]
  | cons c cs ih =>
    rw [bytes_cons, ByteArray.append_assoc, chars_utf8EncodeChar_append, ih, List.cons_append]

@[simp]
theorem chars_bytes (cs : List Char) : chars (bytes cs) = cs := by
  rw [← ByteArray.append_empty (b := bytes cs), chars_bytes_append, chars_empty, List.append_nil]

/-- Bytes of a text do not begin within a character. -/
theorem isUTF8FirstByte_of_bytes {cs : List Char} {x : UInt8} {rest : List UInt8}
    (h : (bytes cs).toList = x :: rest) : x.IsUTF8FirstByte := by
  cases cs with
  | nil =>
    rw [bytes_eq, List.utf8Encode_nil, ByteArray.toList_empty] at h
    cases h
  | cons c cs =>
    rw [bytes_cons, toList_append, toList_toByteArray] at h
    obtain ⟨y, ys, hy⟩ := List.exists_cons_of_ne_nil (String.utf8EncodeChar_ne_nil (c := c))
    have hfirst := UInt8.isUTF8FirstByte_getElem_zero_utf8EncodeChar (c := c)
    simp only [hy, List.getElem_cons_zero] at hfirst
    rw [hy, List.cons_append] at h
    exact (List.cons.inj h).1 ▸ hfirst

/-- What begins no character still begins none when a text is appended, since it cannot go
on with a byte that begins one. -/
theorem decode_append_bytes (cs : List Char) (hne : a ≠ .empty)
    (h : a.utf8DecodeChar? 0 = none) : (a ++ bytes cs).utf8DecodeChar? 0 = none := by
  by_contra hsome
  obtain ⟨c, hc⟩ := Option.ne_none_iff_exists'.mp hsome
  obtain ⟨l, hl⟩ := ByteArray.exists_of_utf8DecodeChar?_eq_some hc
  have hunread : ∀ rest, a.toList ≠ String.utf8EncodeChar c ++ rest := by
    intro rest ha
    have ha : a = (String.utf8EncodeChar c).toByteArray ++ rest.toByteArray := by
      apply toList_injective
      rw [ha, toList_append, toList_toByteArray, toList_toByteArray]
    rw [ha, ByteArray.utf8DecodeChar?_utf8EncodeChar_append] at h
    cases h
  have hlist := congrArg ByteArray.toList hl
  rw [toList_append, toList_append, toList_toByteArray] at hlist
  rcases List.append_eq_append_iff.mp hlist with ⟨rest, hchar, hbytes⟩ | ⟨rest, ha, -⟩
  · cases rest with
    | nil => exact hunread [] (by rw [hchar, List.append_nil, List.append_nil])
    | cons x rest =>
      have hfirst : x.IsUTF8FirstByte := isUTF8FirstByte_of_bytes hbytes
      have hlt : a.toList.length < (String.utf8EncodeChar c).length := by simp [hchar]
      have hx : (String.utf8EncodeChar c)[a.toList.length] = x := by simp [hchar]
      rw [← hx, UInt8.isUTF8FirstByte_getElem_utf8EncodeChar] at hfirst
      have hnil : a.toList = [] := List.length_eq_zero_iff.mp hfirst
      exact hne (toList_injective (hnil.trans ByteArray.toList_empty.symm))
  · exact hunread rest ha

/-- The characters of a byte string to which a text is appended: valid or not, what
was there before is read as before. -/
theorem chars_append_bytes (a : ByteArray) (cs : List Char) :
    chars (a ++ bytes cs) = chars a ++ cs := by
  induction hn : a.size using Nat.strongRecOn generalizing a with
  | _ n ih =>
    by_cases hne : a = .empty
    · rw [hne, ByteArray.empty_append, chars_bytes, chars_empty, List.nil_append]
    cases hdecode : a.utf8DecodeChar? 0 with
    | some c =>
      obtain ⟨rest, rfl⟩ := ByteArray.exists_of_utf8DecodeChar?_eq_some hdecode
      have hlt : rest.size < n := by
        have := c.utf8Size_pos
        simp only [ByteArray.size_append, List.size_toByteArray, String.length_utf8EncodeChar] at hn
        omega
      rw [ByteArray.append_assoc, chars_utf8EncodeChar_append, chars_utf8EncodeChar_append,
        ih rest.size hlt rest rfl, List.cons_append]
    | none =>
      obtain ⟨x, rest, hx⟩ := List.exists_cons_of_ne_nil
        (fun hnil => hne (toList_injective (hnil.trans ByteArray.toList_empty.symm)))
      have ha : a = [x].toByteArray ++ rest.toByteArray := by
        apply toList_injective
        rw [hx, toList_append, toList_toByteArray, toList_toByteArray]
        rfl
      have hlt : rest.toByteArray.size < n := by
        rw [← hn, ha, ByteArray.size_append]
        simp
      have hmore := decode_append_bytes cs hne hdecode
      rw [ha] at hdecode hmore ⊢
      rw [ByteArray.append_assoc] at hmore ⊢
      rw [chars_singleton_append hmore, chars_singleton_append hdecode, ih _ hlt _ rfl,
        List.cons_append]

end Utf8

end Typographical
