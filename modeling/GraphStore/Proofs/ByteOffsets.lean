/-
# `GraphStore.Proofs.ByteOffsets` — the scan of clauses in bytes

The scan of clauses counts characters.  A reader that works on the text in place counts bytes: it
goes through the characters with their offsets, compares bytes where it looks for three quotes,
and gives the length of a token as an offset.  Here is that reader, function by function, and that
each of its lengths is the number of bytes of the characters that the scan takes:

    characters   iriLength?     stringLength     takeWhile
                     │               │               │        byteLength (cs.take n)
    bytes         iriLen?        stringLen       lengthUntil

Two things carry this.  All marks that a length ends at are single bytes, so that one character
after such a mark is one byte after it.  And no encoding of a character begins another one
(`prefix_of_encode`), so that bytes that look like three quotes are three quotes, also behind
characters of several bytes.
-/
import GraphStore.Proofs.Quotation

namespace GraphStore.Clause

variable {q c : Char} {cs pre : List Char} {t : String}

/-! ## Characters and bytes -/

/-- The number of bytes of the characters. -/
def byteLength : List Char → Nat
  | [] => 0
  | c :: cs => c.utf8Size + byteLength cs

@[simp] theorem byteLength_nil : byteLength [] = 0 := rfl

@[simp] theorem byteLength_cons (c : Char) (cs : List Char) :
    byteLength (c :: cs) = c.utf8Size + byteLength cs := rfl

@[simp] theorem byteLength_append (cs ds : List Char) :
    byteLength (cs ++ ds) = byteLength cs + byteLength ds := by
  induction cs with
  | nil => simp
  | cons c cs ih => simp [ih, Nat.add_assoc]

theorem byteLength_ofList (cs : List Char) : (String.ofList cs).utf8ByteSize = byteLength cs := by
  induction cs with
  | nil => rfl
  | cons c cs ih =>
      rw [String.ofList_cons, String.utf8ByteSize_append, String.utf8ByteSize_singleton, ih,
        byteLength_cons]

theorem byteLength_toList (t : String) : byteLength t.toList = t.utf8ByteSize := by
  rw [← byteLength_ofList, String.ofList_toList]

/-- The bytes of the characters. -/
def encode (cs : List Char) : List UInt8 := cs.flatMap String.utf8EncodeChar

/-- The bytes of a text. -/
def octets (t : String) : List UInt8 := t.toByteArray.data.toList

theorem octets_eq (t : String) : octets t = encode t.toList := by
  have hbytes : t.toByteArray = (encode t.toList).toByteArray := by
    rw [← String.utf8Encode_toList]
    rfl
  rw [octets, hbytes, List.data_toByteArray]

@[simp] theorem encode_cons (c : Char) (cs : List Char) :
    encode (c :: cs) = String.utf8EncodeChar c ++ encode cs := rfl

@[simp] theorem encode_append (cs ds : List Char) : encode (cs ++ ds) = encode cs ++ encode ds :=
  List.flatMap_append

theorem length_encode (cs : List Char) : (encode cs).length = byteLength cs := by
  induction cs with
  | nil => rfl
  | cons c cs ih => simp [ih]

/-- Characters whose bytes are the first ones of a text are its first characters. -/
theorem prefix_of_encode {xs : List Char} (h : encode xs <+: encode cs) : xs <+: cs := by
  induction xs generalizing cs with
  | nil => exact List.nil_prefix
  | cons x xs ih =>
      obtain ⟨z, hz⟩ := h
      cases cs with
      | nil =>
          have hempty := (List.append_eq_nil_iff.mp (List.append_eq_nil_iff.mp hz).1).1
          exact absurd hempty String.utf8EncodeChar_ne_nil
      | cons c cs =>
          rw [encode_cons, encode_cons, List.append_assoc] at hz
          -- the first character can be read off the bytes, whatever follows
          have hfirst := congrArg (fun l => l.toByteArray.utf8DecodeChar? 0) hz
          simp only [List.toByteArray_append, ByteArray.utf8DecodeChar?_utf8EncodeChar_append,
            Option.some.injEq] at hfirst
          obtain rfl := hfirst
          have htail : encode xs <+: encode cs := ⟨z, List.append_cancel_left hz⟩
          exact (List.prefix_append_right_inj [x]).mpr (ih htail)

theorem utf8Size_quote (hq : IsQuote q) : q.utf8Size = 1 := by
  rcases hq with rfl | rfl <;> rfl

theorem utf8Size_backslash : '\\'.utf8Size = 1 := rfl

/-! ## Offsets -/

/-- The characters with their offsets, the first of which is given. -/
def offsets (i : Nat) : List Char → List (Nat × Char)
  | [] => []
  | c :: cs => (i, c) :: offsets (i + c.utf8Size) cs

/-- The characters of a text, each with the number of bytes before it. -/
def charIndices (t : String) : List (Nat × Char) := offsets 0 t.toList

/-! ## IRI references -/

/-- The offset behind the bracket that closes an IRI reference. -/
def iriEnd? : List (Nat × Char) → Option Nat
  | [] => none
  | (i, c) :: rest =>
    if c == '>' then some (i + 1) else if isForbidden c then none else iriEnd? rest

/-- The length in bytes of the IRI reference at the start of a text. -/
def iriLen? (t : String) : Option Nat :=
  if t.toList.head? = some '<' then iriEnd? ((charIndices t).drop 1) else none

theorem iriEnd?_offsets (i : Nat) (cs : List Char) :
    iriEnd? (offsets i cs) = (iriTail? cs).map fun n => i + byteLength (cs.take n) := by
  induction cs generalizing i with
  | nil => rfl
  | cons c cs ih =>
      rw [offsets, iriEnd?, iriTail?]
      split
      · rename_i hc
        rw [eq_of_beq hc]
        rfl
      · split
        · rfl
        · rw [ih, Option.map_map]
          congr 1
          funext n
          simp [Nat.add_assoc]

theorem iriLen?_eq (t : String) :
    iriLen? t = (iriLength? t.toList).map fun n => byteLength (t.toList.take n) := by
  unfold iriLen? charIndices
  cases t.toList with
  | nil => rfl
  | cons c cs =>
      by_cases hc : c = '<'
      · subst hc
        rw [if_pos List.head?_cons, iriLength?, Option.map_map]
        show iriEnd? (offsets 1 cs) = _
        rw [iriEnd?_offsets]
        rfl
      · have hnone : iriLength? (c :: cs) = none := by
          unfold iriLength?
          split
          · rename_i heq
            exact absurd (List.cons.inj heq).1 hc
          · rfl
        rw [if_neg (by simpa using hc), hnone]
        rfl

/-! ## String literals -/

/-- The three bytes that open and close a long literal. -/
def delimiter (q : Char) : List UInt8 := if q == '"' then [0x22, 0x22, 0x22] else [0x27, 0x27, 0x27]

/-- The bytes of the text from the offset on begin with those of three quotes. -/
def quotesAt (t : String) (q : Char) (i : Nat) : Bool :=
  (delimiter q).isPrefixOf ((octets t).drop i)

/-- The offset behind the quotes that close a literal, or the length of the text without them. -/
def stringEnd (t : String) (q : Char) (long : Bool) : List (Nat × Char) → Nat
  | [] => t.utf8ByteSize
  | (i, c) :: rest =>
    if c == '\\' then match rest with
      | [] => t.utf8ByteSize
      | _ :: rest => stringEnd t q long rest
    else if long && quotesAt t q i then i + 3
    else if !long && c == q then i + 1
    else stringEnd t q long rest

/-- The length in bytes of the string literal at the start of a text, quotes included. -/
def stringLen (t : String) (q : Char) : Nat :=
  stringEnd t q (quotesAt t q 0) ((charIndices t).drop (if quotesAt t q 0 then 3 else 1))

theorem delimiter_eq (hq : IsQuote q) : delimiter q = encode [q, q, q] := by
  rcases hq with rfl | rfl <;> rfl

theorem quotesAt_eq (hq : IsQuote q) (h : t.toList = pre ++ cs) :
    quotesAt t q (byteLength pre) = [q, q, q].isPrefixOf cs := by
  have hdrop : (octets t).drop (byteLength pre) = encode cs := by
    rw [octets_eq, h, encode_append]
    exact List.drop_left' (length_encode pre)
  refine Bool.eq_iff_iff.mpr ?_
  rw [quotesAt, hdrop, delimiter_eq hq, List.isPrefixOf_iff_prefix, List.isPrefixOf_iff_prefix]
  constructor
  · exact prefix_of_encode
  · rintro ⟨ds, rfl⟩
    exact ⟨encode ds, (encode_append _ ds).symm⟩

theorem stringEnd_cons (hc : c ≠ '\\') (long : Bool) (i : Nat) (cs : List Char) :
    stringEnd t q long (offsets i (c :: cs)) =
      if long && quotesAt t q i then i + 3
      else if !long && c == q then i + 1
      else stringEnd t q long (offsets (i + c.utf8Size) cs) := by
  rw [offsets, stringEnd.eq_def]
  simp only [beq_eq_false_iff_ne.mpr hc, Bool.false_eq_true, if_false]

theorem stringEnd_short (hq : IsQuote q) {i : Nat} (h : i + byteLength cs = t.utf8ByteSize) :
    stringEnd t q false (offsets i cs) = i + byteLength (cs.take (shortTail q cs)) := by
  fun_induction shortTail q cs generalizing i with
  | case1 => exact h.symm
  | case2 => exact h.symm
  | case3 c cs ih =>
      have htail : i + 1 + c.utf8Size + byteLength cs = t.utf8ByteSize := by
        rw [← h]
        simp [Nat.add_assoc, utf8Size_backslash]
      show stringEnd t q false (offsets (i + 1 + c.utf8Size) cs) = _
      rw [ih htail]
      simp [Nat.add_assoc, utf8Size_backslash]
  | case4 c cs hend hescape hquote =>
      rw [stringEnd_cons (ne_backslash hend hescape), eq_of_beq hquote]
      simp [utf8Size_quote hq]
  | case5 c cs hend hescape hquote ih =>
      rw [byteLength_cons, ← Nat.add_assoc] at h
      rw [stringEnd_cons (ne_backslash hend hescape), ih h]
      simp [hquote, Nat.add_assoc]

theorem stringEnd_long (hq : IsQuote q) (h : t.toList = pre ++ cs) :
    stringEnd t q true (offsets (byteLength pre) cs) =
      byteLength pre + byteLength (cs.take (longTail q cs)) := by
  fun_induction longTail q cs generalizing pre with
  | case1 | case2 =>
      show t.utf8ByteSize = _
      rw [← byteLength_toList, h, byteLength_append]
      rfl
  | case3 c cs ih =>
      have htail : t.toList = (pre ++ ['\\', c]) ++ cs := by
        rw [h, List.append_assoc]
        rfl
      have hnext : byteLength (pre ++ ['\\', c]) = byteLength pre + 1 + c.utf8Size := by
        simp [Nat.add_assoc, utf8Size_backslash]
      show stringEnd t q true (offsets (byteLength pre + 1 + c.utf8Size) cs) = _
      rw [← hnext, ih htail, hnext]
      simp [Nat.add_assoc, utf8Size_backslash]
  | case4 c cs hend hescape hquotes =>
      obtain ⟨rest, hrest⟩ := List.isPrefixOf_iff_prefix.mp hquotes
      rw [stringEnd_cons (ne_backslash hend hescape), quotesAt_eq hq h, hquotes, ← hrest]
      simp [utf8Size_quote hq]
  | case5 c cs hend hescape hquotes ih =>
      have htail : t.toList = (pre ++ [c]) ++ cs := by
        rw [h, List.append_assoc]
        rfl
      have hnext : byteLength (pre ++ [c]) = byteLength pre + c.utf8Size := by
        simp
      rw [stringEnd_cons (ne_backslash hend hescape), quotesAt_eq hq h, ← hnext, ih htail, hnext]
      simp [hquotes, Nat.add_assoc]

theorem stringLen_eq (hq : IsQuote q) (h : t.toList = q :: cs) :
    stringLen t q = byteLength (t.toList.take (stringLength q t.toList)) := by
  have hlong : quotesAt t q 0 = [q, q, q].isPrefixOf t.toList :=
    quotesAt_eq hq (List.nil_append _).symm
  have hsize := utf8Size_quote hq
  rw [stringLen, stringLength, hlong]
  cases hquotes : [q, q, q].isPrefixOf t.toList with
  | true =>
      obtain ⟨rest, hrest⟩ := List.isPrefixOf_iff_prefix.mp hquotes
      have hoffset : 0 + q.utf8Size + q.utf8Size + q.utf8Size = byteLength [q, q, q] := by
        simp [hsize]
      rw [if_pos rfl, if_pos rfl, charIndices, ← hrest]
      show stringEnd t q true (offsets (0 + q.utf8Size + q.utf8Size + q.utf8Size) rest) = _
      rw [hoffset, stringEnd_long hq hrest.symm]
      simp [Nat.add_assoc]
  | false =>
      have htext : 1 + byteLength cs = t.utf8ByteSize := by
        rw [← byteLength_toList, h, byteLength_cons, hsize]
      have hoffset : 0 + q.utf8Size = 1 := by
        rw [hsize]
      rw [if_neg Bool.false_ne_true, if_neg Bool.false_ne_true, charIndices, h]
      show stringEnd t q false (offsets (0 + q.utf8Size) cs) = _
      rw [hoffset, stringEnd_short hq htext]
      simp [hsize]

/-! ## Words and comments -/

/-- The offset of the first character with the property, or the length of the text. -/
def lengthUntil (p : Char → Bool) (t : String) : Nat :=
  ((charIndices t).find? fun ic => p ic.2).elim t.utf8ByteSize Prod.fst

theorem find?_offsets (p : Char → Bool) (i : Nat) (cs : List Char) :
    ((offsets i cs).find? fun ic => p ic.2).elim (i + byteLength cs) Prod.fst =
      i + byteLength (cs.takeWhile (!p ·)) := by
  induction cs generalizing i with
  | nil => rfl
  | cons c cs ih =>
      rw [offsets, List.find?_cons, List.takeWhile_cons]
      cases hc : p c with
      | true => simp
      | false =>
          simp only [byteLength_cons, ← Nat.add_assoc, Bool.not_false, if_true]
          exact ih (i + c.utf8Size)

theorem lengthUntil_eq (p : Char → Bool) (t : String) :
    lengthUntil p t = byteLength (t.toList.takeWhile (!p ·)) := by
  have hfind := find?_offsets p 0 t.toList
  rw [Nat.zero_add, Nat.zero_add, byteLength_toList] at hfind
  exact hfind

end GraphStore.Clause
