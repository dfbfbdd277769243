import Mathlib.Data.List.Basic
import ScriptLens.Text.Utf8

/-! # Decoding well-formed text

The decoder reads back what was encoded, character by character. Between two positions that
stand between characters there are whole characters again, so a slice of a well-formed text
decodes to a text with just these bytes.
-/
namespace ScriptLens.Text

def encode (chars : List Char) : List UInt8 := chars.flatMap String.utf8EncodeChar

def isInner (b : UInt8) : Bool := b &&& 0xC0 == 0x80

theorem isInner_iff {b : UInt8} : isInner b = true ↔ 0x80 ≤ b.toNat ∧ b.toNat < 0xC0 := by
  have hbytes : ∀ n < 256, isInner (UInt8.ofNat n) = true ↔
      0x80 ≤ (UInt8.ofNat n).toNat ∧ (UInt8.ofNat n).toNat < 0xC0 := by
    decide +kernel
  have hb := hbytes b.toNat b.toNat_lt
  rwa [UInt8.ofNat_toNat] at hb

theorem encode_cons (c : Char) (cs : List Char) :
    encode (c :: cs) = String.utf8EncodeChar c ++ encode cs := List.flatMap_cons

theorem encode_append (cs ds : List Char) : encode (cs ++ ds) = encode cs ++ encode ds :=
  List.flatMap_append

theorem toUTF8_data (s : String) : s.toUTF8.data.toList = encode s.toList := by
  conv_lhs => rw [← String.ofList_toList (s := s)]
  rw [String.toUTF8_eq_toByteArray, String.toByteArray_ofList, List.utf8Encode]
  simp [encode]

/-! ## Decoding characters -/

namespace Decoder

theorem run_cons (d : Decoder) (b : UInt8) (rest : List UInt8) :
    d.run (b :: rest) = (d.step b.toNat).1 ++ (d.step b.toNat).2.run rest := by
  cases d <;> rfl

theorem step_pending {left bits low high b : Nat} (hlow : low ≤ b) (hhigh : b ≤ high) :
    (pending left bits low high).step b =
      if left ≤ 1 then ([Char.ofNat (bits * 64 + (b - 0x80))], .idle)
      else ([], .pending (left - 1) (bits * 64 + (b - 0x80)) 0x80 0xBF) := by
  rw [step, if_pos ⟨hlow, hhigh⟩]

theorem first_two {b : Nat} (hlow : 0xC2 ≤ b) (hhigh : b < 0xE0) :
    first b = ([], .pending 1 (b - 0xC0) 0x80 0xBF) := by
  rw [first, if_neg (by omega), if_neg (by omega), if_pos hhigh]

/-- After the first byte of three comes one that makes neither a short character nor a
surrogate. -/
theorem first_three {b x : Nat} (hlow : 0xE0 ≤ b) (hhigh : b < 0xF0) (hx : 0x80 ≤ x)
    (hx' : x ≤ 0xBF) (hlong : b = 0xE0 → 0xA0 ≤ x) (hsurrogate : b = 0xED → x ≤ 0x9F) :
    ∃ low high, first b = ([], .pending 2 (b - 0xE0) low high) ∧ low ≤ x ∧ x ≤ high := by
  rw [first, if_neg (by omega), if_neg (by omega), if_neg (by omega), if_pos hhigh]
  split
  · next heq => exact ⟨_, _, by rw [heq], hlong heq, hx'⟩
  · split
    · next heq => exact ⟨_, _, by rw [heq], hx, hsurrogate heq⟩
    · exact ⟨_, _, rfl, hx, hx'⟩

theorem first_four {b x : Nat} (hlow : 0xF0 ≤ b) (hhigh : b ≤ 0xF4) (hx : 0x80 ≤ x)
    (hx' : x ≤ 0xBF) (hlong : b = 0xF0 → 0x90 ≤ x) (hlast : b = 0xF4 → x ≤ 0x8F) :
    ∃ low high, first b = ([], .pending 3 (b - 0xF0) low high) ∧ low ≤ x ∧ x ≤ high := by
  rw [first, if_neg (by omega), if_neg (by omega), if_neg (by omega), if_neg (by omega),
    if_neg (by omega), if_neg (by omega)]
  split
  · next heq => exact ⟨_, _, by rw [heq], hlong heq, hx'⟩
  · split
    · exact ⟨_, _, rfl, hx, hx'⟩
    · have hend : b = 0xF4 := by omega
      exact ⟨_, _, by rw [if_pos hend, hend], hx, hlast hend⟩

end Decoder

open Decoder in
theorem decode_utf8EncodeChar (c : Char) (rest : List UInt8) :
    decode (String.utf8EncodeChar c ++ rest) = c :: decode rest := by
  have hvalid : c.toNat < 0xD800 ∨ 0xDFFF < c.toNat ∧ c.toNat < 0x110000 := c.valid
  have hchar : Char.ofNat c.toNat = c := Char.ofNat_toNat c
  have hbyte : ∀ {n : Nat}, n < 256 → (UInt8.ofNat n).toNat = n := fun h => by
    rw [UInt8.toNat_ofNat', Nat.mod_eq_of_lt h]
  obtain ⟨v, hv⟩ : ∃ v, v = c.toNat := ⟨_, rfl⟩
  rw [← hv] at hvalid hchar
  have hval : c.val.toNat = v := hv.symm
  unfold decode String.utf8EncodeChar
  simp only [hval]
  split
  · next hone =>
    rw [List.singleton_append, run_cons, hbyte (by omega)]
    simp only [step, first, if_pos (show v < 0x80 by omega), hchar, List.singleton_append]
  · split
    · next hone htwo =>
      have hfirst := first_two (b := v / 64 % 32 + 0xC0) (by omega) (by omega)
      rw [List.cons_append, List.cons_append, List.nil_append, run_cons, run_cons,
        hbyte (by omega), hbyte (by omega), step, hfirst,
        step_pending (by omega) (by omega), if_pos (Nat.le_refl 1)]
      have hbits : (v / 64 % 32 + 0xC0 - 0xC0) * 64 + (v % 64 + 0x80 - 0x80) = v := by omega
      rw [hbits, hchar]
      rfl
    · split
      · next hone htwo hthree =>
        obtain ⟨low, high, hfirst, hlow, hhigh⟩ := first_three (b := v / 4096 % 16 + 0xE0)
          (x := v / 64 % 64 + 0x80) (by omega) (by omega) (by omega) (by omega) (by omega)
          (by omega)
        rw [List.cons_append, List.cons_append, List.cons_append, List.nil_append, run_cons,
          run_cons, run_cons, hbyte (by omega), hbyte (by omega), hbyte (by omega), step, hfirst,
          step_pending hlow hhigh, if_neg (by omega), step_pending (by omega) (by omega),
          if_pos (Nat.le_refl 1)]
        have hbits : ((v / 4096 % 16 + 0xE0 - 0xE0) * 64 + (v / 64 % 64 + 0x80 - 0x80)) * 64 +
            (v % 64 + 0x80 - 0x80) = v := by omega
        rw [hbits, hchar]
        rfl
      · next hone htwo hthree =>
        obtain ⟨low, high, hfirst, hlow, hhigh⟩ := first_four (b := v / 262144 % 8 + 0xF0)
          (x := v / 4096 % 64 + 0x80) (by omega) (by omega) (by omega) (by omega) (by omega)
          (by omega)
        rw [List.cons_append, List.cons_append, List.cons_append, List.cons_append,
          List.nil_append, run_cons, run_cons, run_cons, run_cons, hbyte (by omega),
          hbyte (by omega), hbyte (by omega), hbyte (by omega), step, hfirst,
          step_pending hlow hhigh, if_neg (by omega), step_pending (by omega) (by omega),
          if_neg (by omega), step_pending (by omega) (by omega), if_pos (Nat.le_refl 1)]
        have hbits : (((v / 262144 % 8 + 0xF0 - 0xF0) * 64 + (v / 4096 % 64 + 0x80 - 0x80)) * 64 +
            (v / 64 % 64 + 0x80 - 0x80)) * 64 + (v % 64 + 0x80 - 0x80) = v := by omega
        rw [hbits, hchar]
        rfl

theorem decode_encode (cs : List Char) : decode (encode cs) = cs := by
  induction cs with
  | nil => rfl
  | cons c cs ih => rw [encode_cons, decode_utf8EncodeChar, ih]

/-! ## Slices of well-formed text -/

/-- The first byte of a character is none that stands inside of one, and all others are. -/
theorem isInner_utf8EncodeChar (c : Char) :
    ∃ b tail, String.utf8EncodeChar c = b :: tail ∧ isInner b = false ∧
      ∀ x ∈ tail, isInner x = true := by
  have hvalid : c.toNat < 0xD800 ∨ 0xDFFF < c.toNat ∧ c.toNat < 0x110000 := c.valid
  have hval : c.val.toNat = c.toNat := rfl
  have hinner : ∀ {n : Nat}, 0x80 ≤ n → n < 0xC0 → isInner (UInt8.ofNat n) = true := by
    intro n hlow hhigh
    rw [isInner_iff, UInt8.toNat_ofNat', Nat.mod_eq_of_lt (by omega)]
    exact ⟨hlow, hhigh⟩
  have houter : ∀ {n : Nat}, n < 0x80 ∨ 0xC0 ≤ n → n < 256 → isInner (UInt8.ofNat n) = false := by
    intro n hout hbyte
    rw [Bool.eq_false_iff, ne_eq, isInner_iff, UInt8.toNat_ofNat', Nat.mod_eq_of_lt (by omega)]
    omega
  unfold String.utf8EncodeChar
  simp only [hval]
  split
  · exact ⟨_, _, rfl, houter (by omega) (by omega), by simp⟩
  · split
    · refine ⟨_, _, rfl, houter (by omega) (by omega), ?_⟩
      simp only [List.mem_singleton, forall_eq]
      exact hinner (by omega) (by omega)
    · split
      · refine ⟨_, _, rfl, houter (by omega) (by omega), ?_⟩
        simp only [List.mem_cons, List.not_mem_nil, or_false, forall_eq_or_imp, forall_eq]
        exact ⟨hinner (by omega) (by omega), hinner (by omega) (by omega)⟩
      · refine ⟨_, _, rfl, houter (by omega) (by omega), ?_⟩
        simp only [List.mem_cons, List.not_mem_nil, or_false, forall_eq_or_imp, forall_eq]
        exact ⟨hinner (by omega) (by omega), hinner (by omega) (by omega),
          hinner (by omega) (by omega)⟩

/-- Whether a position in some bytes is their end or in front of a character. -/
def splits (bytes : List UInt8) (i : Nat) : Bool :=
  match bytes[i]? with
  | none => i == bytes.length
  | some b => !isInner b

theorem splits_length (bytes : List UInt8) : splits bytes bytes.length = true := by
  simp [splits]

theorem le_length_of_splits {bytes : List UInt8} {i : Nat} (h : splits bytes i = true) :
    i ≤ bytes.length := by
  rw [splits] at h
  split at h
  · exact Nat.le_of_eq (beq_iff_eq.mp h)
  · next hsome => exact Nat.le_of_lt (List.getElem?_eq_some_iff.mp hsome).1

theorem isBoundary_eq (source : ByteArray) (i : Nat) :
    isBoundary source i = splits source.data.toList i := by
  have hget : source[i]? = source.data.toList[i]? := by
    rw [Array.getElem?_toList]
    rfl
  rw [isBoundary, splits, hget, Array.length_toList]
  cases source.data.toList[i]? <;> rfl

theorem le_size_of_isBoundary {source : ByteArray} {i : Nat} (h : isBoundary source i = true) :
    i ≤ source.size := by
  rw [isBoundary_eq] at h
  have hbound := le_length_of_splits h
  rwa [Array.length_toList] at hbound

/-- A position in front of a character splits the characters of a text. -/
theorem exists_append_of_splits {cs : List Char} {i : Nat} (h : splits (encode cs) i = true) :
    ∃ as bs, cs = as ++ bs ∧ (encode as).length = i := by
  induction cs generalizing i with
  | nil =>
    have hzero := le_length_of_splits h
    exact ⟨[], [], rfl, (Nat.le_zero.mp hzero).symm⟩
  | cons c cs ih =>
    obtain ⟨b, tail, hbytes, _, htail⟩ := isInner_utf8EncodeChar c
    rw [encode_cons, hbytes] at h
    by_cases hzero : i = 0
    · exact ⟨[], c :: cs, rfl, hzero.symm⟩
    · by_cases hinside : i < (b :: tail).length
      · have hmem : (b :: tail)[i] ∈ tail := by
          obtain ⟨j, rfl⟩ := Nat.exists_eq_succ_of_ne_zero hzero
          exact List.getElem_mem _
        rw [splits, List.getElem?_append_left hinside, List.getElem?_eq_getElem hinside] at h
        simp only [htail _ hmem, Bool.not_true, Bool.false_eq_true] at h
      · have hrest : splits (encode cs) (i - (b :: tail).length) = true := by
          rw [splits, List.getElem?_append_right (by omega), List.length_append] at h
          rw [splits]
          split at h
          · rw [beq_iff_eq] at h ⊢
            omega
          · exact h
        obtain ⟨as, bs, rfl, hlength⟩ := ih hrest
        refine ⟨c :: as, bs, rfl, ?_⟩
        rw [encode_cons, List.length_append, hbytes, hlength]
        omega

theorem take_append_between {bytes : List UInt8} {i j : Nat} (hle : i ≤ j) :
    bytes.take i ++ (bytes.take j).drop i = bytes.take j := by
  rw [← Nat.min_eq_left hle, ← List.take_take, Nat.min_eq_left hle, List.take_append_drop]

theorem bytesBetween_eq (source : ByteArray) (start stop : Nat) :
    bytesBetween source start stop = (source.data.toList.take stop).drop start := by
  rw [bytesBetween, ByteArray.data_extract, Array.toList_extract, List.extract_eq_take_drop,
    List.drop_take]

theorem toList_lossySlice_self (source : ByteArray) (i : Nat) :
    (lossySlice source i i).toList = [] := by
  have hempty : bytesBetween source i i = [] := by
    rw [bytesBetween_eq, List.drop_take, Nat.sub_self, List.take_zero]
  rw [lossySlice, hempty, String.toList_ofList]
  rfl

theorem exists_encode_bytesBetween {s : String} {start stop : Nat} (hle : start ≤ stop)
    (hstart : isBoundary s.toUTF8 start = true) (hstop : isBoundary s.toUTF8 stop = true) :
    ∃ cs, bytesBetween s.toUTF8 start stop = encode cs := by
  rw [isBoundary_eq, toUTF8_data] at hstart hstop
  obtain ⟨as, bs, hsplit, hlength⟩ := exists_append_of_splits hstop
  have htake : (encode s.toList).take stop = encode as := by
    rw [hsplit, encode_append, List.take_left' hlength]
  have hinner : splits (encode as) start = true := by
    by_cases hend : start = stop
    · rw [hend, ← hlength]
      exact splits_length _
    · have hlt : start < (encode as).length := by omega
      rw [hsplit, encode_append, splits, List.getElem?_append_left hlt] at hstart
      rw [splits]
      rw [List.getElem?_eq_getElem hlt] at hstart ⊢
      exact hstart
  obtain ⟨cs, ds, rfl, hbefore⟩ := exists_append_of_splits hinner
  refine ⟨ds, ?_⟩
  rw [bytesBetween_eq, toUTF8_data, htake, encode_append, List.drop_left' hbefore]

/-- A slice of a well-formed text has the bytes of the text in that place. -/
theorem toUTF8_lossySlice {s : String} {start stop : Nat} (hle : start ≤ stop)
    (hstart : isBoundary s.toUTF8 start = true) (hstop : isBoundary s.toUTF8 stop = true) :
    (lossySlice s.toUTF8 start stop).toUTF8.data.toList = bytesBetween s.toUTF8 start stop := by
  obtain ⟨cs, hcs⟩ := exists_encode_bytesBetween hle hstart hstop
  rw [toUTF8_data, lossySlice, hcs, decode_encode, String.toList_ofList]

theorem splits_encode_append (as bs : List Char) :
    splits (encode (as ++ bs)) (encode as).length = true := by
  rw [splits, encode_append, List.getElem?_append_right (Nat.le_refl _), Nat.sub_self]
  cases bs with
  | nil => simp [encode]
  | cons b bs =>
    obtain ⟨first, tail, hbytes, houter, _⟩ := isInner_utf8EncodeChar b
    rw [encode_cons, hbytes, List.cons_append, List.getElem?_cons_zero]
    simp only [houter, Bool.not_false]

theorem bytesBetween_append (source : ByteArray) {start mid stop : Nat} (hstart : start ≤ mid)
    (hmid : mid ≤ stop) (hsize : mid ≤ source.size) :
    bytesBetween source start stop =
      bytesBetween source start mid ++ bytesBetween source mid stop := by
  have hlength : mid ≤ source.data.toList.length := by
    rw [Array.length_toList]
    exact hsize
  rw [bytesBetween_eq, bytesBetween_eq, bytesBetween_eq]
  conv_lhs => rw [← take_append_between hmid]
  rw [List.drop_append_of_le_length (by rw [List.length_take_of_le hlength]; exact hstart)]

section Slices

variable {s : String} {start mid stop : Nat} (hle : start ≤ mid) (hle' : mid ≤ stop)
  (hstart : isBoundary s.toUTF8 start = true) (hmid : isBoundary s.toUTF8 mid = true)
  (hstop : isBoundary s.toUTF8 stop = true)
include hle hle' hstart hmid hstop

theorem toList_lossySlice_append :
    (lossySlice s.toUTF8 start stop).toList =
      (lossySlice s.toUTF8 start mid).toList ++ (lossySlice s.toUTF8 mid stop).toList := by
  obtain ⟨as, has⟩ := exists_encode_bytesBetween hle hstart hmid
  obtain ⟨bs, hbs⟩ := exists_encode_bytesBetween hle' hmid hstop
  simp only [lossySlice, String.toList_ofList]
  rw [bytesBetween_append _ hle hle' (le_size_of_isBoundary hmid), has, hbs, ← encode_append,
    decode_encode, decode_encode, decode_encode]

theorem slice?_lossySlice :
    slice? (lossySlice s.toUTF8 start stop).toUTF8 0 (mid - start) =
      some (lossySlice s.toUTF8 start mid) := by
  have hsplit := toList_lossySlice_append hle hle' hstart hmid hstop
  obtain ⟨as, has⟩ := exists_encode_bytesBetween hle hstart hmid
  have hfirst : lossySlice s.toUTF8 start mid = String.ofList as := by
    rw [lossySlice, has, decode_encode]
  rw [hfirst, String.toList_ofList] at hsplit
  generalize (lossySlice s.toUTF8 mid stop).toList = bs at hsplit
  have hlength : (encode as).length = mid - start := by
    rw [← has, bytesBetween_eq, List.length_drop, List.length_take_of_le]
    rw [Array.length_toList]
    exact le_size_of_isBoundary hmid
  have hdata : (lossySlice s.toUTF8 start stop).toUTF8.data.toList = encode (as ++ bs) := by
    rw [toUTF8_data, hsplit]
  have hzero : isBoundary (lossySlice s.toUTF8 start stop).toUTF8 0 = true := by
    rw [isBoundary_eq, hdata]
    exact splits_encode_append [] (as ++ bs)
  have hend : isBoundary (lossySlice s.toUTF8 start stop).toUTF8 (mid - start) = true := by
    rw [isBoundary_eq, hdata, ← hlength]
    exact splits_encode_append as bs
  rw [hfirst, slice?, hzero, hend, if_pos (by simp)]
  conv_lhs => rw [lossySlice, bytesBetween_eq, hdata, List.drop_zero, encode_append,
    List.take_left' hlength, decode_encode]

end Slices

end ScriptLens.Text
