/-
# `GraphStore.Proofs.TokenLengths` — where tokens end

The reader of tokens in bytes has to get two things right.  IRI references and string literals
must be as long as the grammar says (`iriLen?_eq_some`, `stringLen_of_production`): between the
quotes of a literal there may be quotes, also one or two next to each other, and the first place
that closes it must be the one of the grammar.  And no cut may fall into a character, or the text
behind it is no text: `cut?` is absent there, `tokenize?` is absent if one of its cuts is, and
`tokenize?_eq` says that it never is and that the tokens are those of the scan in characters.

The productions are those of the grammar, with `q` for the quote.

| | |
| :-- | :-- |
| IRIREF | `IriReference` |
| STRING_LITERAL1, STRING_LITERAL2 | `Production.short` |
| STRING_LITERAL_LONG1, STRING_LITERAL_LONG2 | `Production.long` |
-/
import GraphStore.Proofs.ByteOffsets

namespace GraphStore.Clause

open Text

variable {q c : Char} {cs : List Char} {n : Nat} {s t rest : String}

/-! ## Productions -/

/-- A character between the brackets of an IRI reference: no delimiter, no space and no control
character. -/
def IsReferenceChar (c : Char) : Prop := c ∉ "<>\"\x7b\x7d|^\x60\\".toList ∧ 0x20 < c.toNat

/-- The IRI references. -/
inductive IriReference : List Char → Prop
  | brackets {body : List Char} : (∀ c ∈ body, IsReferenceChar c) →
      IriReference ('<' :: (body ++ ['>']))

/-- The characters that may stand behind a backslash. -/
def escapable : List Char := "tbnrf\\\"'".toList

/-- What is repeated between the quotes of a short literal. -/
inductive ShortPiece (q : Char) : List Char → Prop
  | char {c : Char} : c ∉ [q, '\\', '\n', '\r'] → ShortPiece q [c]
  | escape {c : Char} : c ∈ escapable → ShortPiece q ['\\', c]

/-- What is repeated between the quotes of a long literal; it may begin with one or two quotes. -/
inductive LongPiece (q : Char) : List Char → Prop
  | char {n : Nat} {c : Char} : n ≤ 2 → c ∉ [q, '\\'] → LongPiece q (List.replicate n q ++ [c])
  | escape {n : Nat} {c : Char} : n ≤ 2 → c ∈ escapable →
      LongPiece q (List.replicate n q ++ ['\\', c])

/-- The string literals of the grammar with the quote `q`. -/
inductive Production (q : Char) : List Char → Prop
  | short {ps : List (List Char)} : (∀ p ∈ ps, ShortPiece q p) →
      Production q (q :: (ps.flatten ++ [q]))
  | long {ps : List (List Char)} : (∀ p ∈ ps, LongPiece q p) →
      Production q (q :: q :: q :: (ps.flatten ++ [q, q, q]))

theorem toList_eq_append : t = s ++ rest ↔ t.toList = s.toList ++ rest.toList := by
  rw [← String.toList_append, String.toList_inj]

/-! ## IRI references -/

theorem isReferenceChar_iff : IsReferenceChar c ↔ isForbidden c = false ∧ c ≠ '>' := by
  simp [IsReferenceChar, isForbidden, and_assoc, and_comm, and_left_comm]

theorem iriTail?_eq_some : iriTail? cs = some n ↔
    ∃ body rest : List Char, (∀ c ∈ body, IsReferenceChar c) ∧ cs = body ++ '>' :: rest ∧
      n = body.length + 1 := by
  constructor
  · intro h
    induction cs generalizing n with
    | nil => cases h
    | cons c cs ih =>
        rw [iriTail?] at h
        split at h
        · rename_i hc
          rw [eq_of_beq hc]
          exact ⟨[], cs, List.forall_mem_nil _, rfl, (Option.some.inj h).symm⟩
        · split at h
          · cases h
          · rename_i hclosing hforbidden
            obtain ⟨m, hm, rfl⟩ := Option.map_eq_some_iff.mp h
            obtain ⟨body, rest, hbody, rfl, rfl⟩ := ih hm
            have hc : IsReferenceChar c := isReferenceChar_iff.mpr
              ⟨Bool.eq_false_iff.mpr hforbidden, fun heq => hclosing (beq_iff_eq.mpr heq)⟩
            exact ⟨c :: body, rest, List.forall_mem_cons.mpr ⟨hc, hbody⟩, rfl, rfl⟩
  · rintro ⟨body, rest, hbody, rfl, rfl⟩
    exact iriTail?_append (fun c hc => isReferenceChar_iff.mp (hbody c hc)) rest

theorem iriLength?_eq_some : iriLength? cs = some n ↔
    ∃ i rest : List Char, IriReference i ∧ cs = i ++ rest ∧ n = i.length := by
  constructor
  · intro h
    unfold iriLength? at h
    split at h
    · obtain ⟨m, hm, rfl⟩ := Option.map_eq_some_iff.mp h
      obtain ⟨body, rest, hbody, rfl, rfl⟩ := iriTail?_eq_some.mp hm
      exact ⟨_, rest, .brackets hbody, by simp, by simp⟩
    · cases h
  · rintro ⟨i, rest, ⟨hbody⟩, rfl, rfl⟩
    rename_i body
    have htail : iriTail? (body ++ '>' :: rest) = some (body.length + 1) :=
      iriTail?_eq_some.mpr ⟨body, rest, hbody, rfl, rfl⟩
    simp [iriLength?, htail]

theorem iriLen?_eq_some : iriLen? t = some n ↔
    ∃ i rest : String, IriReference i.toList ∧ t = i ++ rest ∧ i.utf8ByteSize = n := by
  rw [iriLen?_eq, Option.map_eq_some_iff]
  constructor
  · rintro ⟨k, hk, rfl⟩
    obtain ⟨i, rest, hi, ht, rfl⟩ := iriLength?_eq_some.mp hk
    refine ⟨.ofList i, .ofList rest, ?_, ?_, ?_⟩
    · rwa [String.toList_ofList]
    · rw [toList_eq_append, String.toList_ofList, String.toList_ofList, ht]
    · rw [byteLength_ofList, ht, List.take_left]
  · rintro ⟨i, rest, hi, ht, rfl⟩
    rw [toList_eq_append] at ht
    refine ⟨i.toList.length, iriLength?_eq_some.mpr ⟨_, _, hi, ht, rfl⟩, ?_⟩
    rw [ht, List.take_left, byteLength_toList]

theorem iriLen?_eq_none : iriLen? t = none ↔
    ∀ i rest : String, t = i ++ rest → ¬ IriReference i.toList := by
  rw [Option.eq_none_iff_forall_ne_some]
  constructor
  · intro h i rest ht hi
    exact h _ (iriLen?_eq_some.mpr ⟨i, rest, hi, ht, rfl⟩)
  · intro h n hn
    obtain ⟨i, rest, hi, ht, -⟩ := iriLen?_eq_some.mp hn
    exact h i rest ht hi

/-! ## String literals -/

theorem shortContent_flatten {ps : List (List Char)} (h : ∀ p ∈ ps, ShortPiece q p) :
    ShortContent q ps.flatten := by
  induction ps with
  | nil => exact .nil
  | cons p ps ih =>
      obtain ⟨hp, hps⟩ := List.forall_mem_cons.mp h
      cases hp with
      | char hc =>
          simp only [List.mem_cons, not_or] at hc
          exact .char hc.1 hc.2.1 (ih hps)
      | escape _ => exact .escape _ (ih hps)

theorem longContent_flatten {ps : List (List Char)} (h : ∀ p ∈ ps, LongPiece q p) :
    LongContent q ps.flatten := by
  induction ps with
  | nil => exact .nil
  | cons p ps ih =>
      obtain ⟨hp, hps⟩ := List.forall_mem_cons.mp h
      rw [List.flatten_cons]
      cases hp with
      | char hn hc =>
          simp only [List.mem_cons, not_or] at hc
          rw [List.append_assoc]
          exact .char hn hc.1 hc.2.1 (ih hps)
      | escape hn _ =>
          rw [List.append_assoc]
          exact .escape _ hn (ih hps)

theorem Production.exists_cons (h : Production q cs) : ∃ ds, cs = q :: ds := by
  cases h <;> exact ⟨_, rfl⟩

/-- The first place that closes a literal of the grammar is its end. -/
theorem stringLength_of_production (hq : IsQuote q) (h : Production q cs) (rest : List Char)
    (hrest : cs.length = 2 → rest.head? ≠ some q) : stringLength q (cs ++ rest) = cs.length := by
  cases h with
  | short hps =>
      rename_i ps
      have hlength : stringLength q (q :: (ps.flatten ++ q :: rest)) = ps.flatten.length + 2 :=
        stringLength_short hq (shortContent_flatten hps) fun hempty => hrest (by simp [hempty])
      simpa using hlength
  | long hps =>
      rename_i ps
      have hlength := stringLength_long hq (longContent_flatten hps) rest
      simpa using hlength

theorem stringLen_of_production (hq : IsQuote q) (h : Production q s.toList) (ht : t = s ++ rest)
    (hrest : s.length = 2 → rest.toList.head? ≠ some q) : stringLen t q = s.utf8ByteSize := by
  rw [toList_eq_append] at ht
  obtain ⟨cs, hcs⟩ := h.exists_cons
  have hcons : t.toList = q :: (cs ++ rest.toList) := by
    rw [ht, hcs]
    rfl
  have hlength := stringLength_of_production hq h rest.toList hrest
  rw [stringLen_eq hq hcons, ht, hlength, List.take_left, byteLength_toList]

/-! ## Tokens -/

/-- The length in bytes of the first token or gap of a text that begins with `c`, and the token
that its characters are. -/
def firstOf (c : Char) (t : String) : (String → Option Token) × Nat :=
  if isBlank c then (fun _ => none, c.utf8Size)
  else if c == '#' then (fun _ => none, lengthUntil endsLine t)
  else if c == '"' || c == '\'' then (fun _ => some .other, stringLen t c)
  else match iriLen? t with
    | some n => (fun s => some (.iri s.toList), n)
    | none =>
      if isWordChar c then (fun s => some (.word s.toList), lengthUntil (!isWordChar ·) t)
      else (fun _ => some .other, c.utf8Size)

/-- The length in bytes of the first token or gap. -/
def tokenLen (t : String) : Nat := t.toList.head?.elim 0 fun c => (firstOf c t).2

/-- The text in two parts, the first of which has `n` bytes; absent if the cut would fall into a
character or behind the end. -/
def cut? (n : Nat) (t : String) : Option (String × String) :=
  if h : (String.Pos.Raw.mk n).IsValid t then
    some ((t.sliceTo ⟨⟨n⟩, h⟩).copy, (t.sliceFrom ⟨⟨n⟩, h⟩).copy)
  else none

theorem cut?_append (s rest : String) : cut? s.utf8ByteSize (s ++ rest) = some (s, rest) := by
  have hvalid : (String.Pos.Raw.mk s.utf8ByteSize).IsValid (s ++ rest) :=
    String.Pos.Raw.isValid_iff_exists_append.mpr ⟨s, rest, rfl, rfl⟩
  let p : (s ++ rest).Pos := ⟨⟨s.utf8ByteSize⟩, hvalid⟩
  have hsplits : p.Splits s rest := ⟨rfl, rfl⟩
  rw [cut?, dif_pos hvalid]
  exact congrArg some (Prod.ext hsplits.copy_sliceTo_eq hsplits.copy_sliceFrom_eq)

theorem eq_append_of_cut? (h : cut? n t = some (s, rest)) :
    t = s ++ rest ∧ s.utf8ByteSize = n := by
  unfold cut? at h
  split at h
  · rename_i hvalid
    let p : t.Pos := ⟨⟨n⟩, hvalid⟩
    have hsplits := p.splits
    obtain ⟨rfl, rfl⟩ := Prod.ext_iff.mp (Option.some.inj h)
    exact ⟨hsplits.eq_append, (congrArg String.Pos.Raw.byteIdx hsplits.offset_eq_rawEndPos).symm⟩
  · cases h

theorem take_takeWhile {p : Char → Bool} (hc : p c = true) (cs : List Char) :
    (c :: cs).take (1 + (cs.takeWhile p).length) = (c :: cs).takeWhile p := by
  have htake := List.prefix_iff_eq_take.mp (List.takeWhile_prefix p (l := cs))
  rw [Nat.add_comm, List.take_succ_cons, ← htake, List.takeWhile_cons_of_pos hc]

/-- In bytes the first token is what it is in characters. -/
theorem firstOf_eq (h : t.toList = c :: cs) :
    (firstOf c t).2 = byteLength ((c :: cs).take (firstToken c cs).2) ∧
      (firstOf c t).1 (.ofList ((c :: cs).take (firstToken c cs).2)) = (firstToken c cs).1 := by
  by_cases hblank : isBlank c = true
  · rw [firstOf, firstToken, if_pos hblank, if_pos hblank]
    exact ⟨by simp, rfl⟩
  by_cases hcomment : (c == '#') = true
  · rw [firstOf, firstToken, if_neg hblank, if_neg hblank, if_pos hcomment, if_pos hcomment]
    refine ⟨?_, rfl⟩
    have hline : (!endsLine c) = true := by
      rw [eq_of_beq hcomment]
      rfl
    rw [lengthUntil_eq, h]
    exact congrArg byteLength (take_takeWhile (p := (!endsLine ·)) hline cs).symm
  by_cases hquote : (c == '"' || c == '\'') = true
  · rw [firstOf, firstToken, if_neg hblank, if_neg hblank, if_neg hcomment, if_neg hcomment,
      if_pos hquote, if_pos hquote]
    have hq : IsQuote c := ((Bool.or_eq_true _ _).mp hquote).imp eq_of_beq eq_of_beq
    refine ⟨?_, rfl⟩
    rw [stringLen_eq hq h, h]
  rw [firstOf, firstToken, if_neg hblank, if_neg hblank, if_neg hcomment, if_neg hcomment,
    if_neg hquote, if_neg hquote, iriLen?_eq, h]
  cases iriLength? (c :: cs) with
  | some n => exact ⟨rfl, by simp⟩
  | none =>
      by_cases hword : isWordChar c = true
      · simp only [Option.map_none, if_pos hword]
        have htake := take_takeWhile hword cs
        refine ⟨?_, ?_⟩
        · rw [lengthUntil_eq, htake, h]
          simp
        · rw [htake, List.takeWhile_cons_of_pos hword, String.toList_ofList]
      · simp [hword]

theorem byteLength_pos {cs : List Char} (h : cs ≠ []) : 0 < byteLength cs := by
  cases cs with
  | nil => exact absurd rfl h
  | cons c cs => exact Nat.add_pos_left c.utf8Size_pos _

theorem firstOf_pos (h : t.toList = c :: cs) : 0 < (firstOf c t).2 := by
  rw [(firstOf_eq h).1]
  refine byteLength_pos fun hnil => ?_
  have hpos := firstToken_pos c cs
  rcases List.take_eq_nil_iff.mp hnil with hzero | hempty
  · omega
  · cases hempty

/-- The tokens of a text, cut off one after the other at their lengths in bytes. -/
def tokenize? (t : String) : Option (List Token) :=
  match _ht : t.toList with
  | [] => some []
  | c :: _ =>
    match _hcut : cut? (firstOf c t).2 t with
    | none => none
    | some (s, rest) => (tokenize? rest).map fun ts => ((firstOf c t).1 s).toList ++ ts
termination_by t.utf8ByteSize
decreasing_by
  obtain ⟨happend, hsize⟩ := eq_append_of_cut? _hcut
  have hpos := firstOf_pos _ht
  rw [happend, String.utf8ByteSize_append]
  omega

/-- The first cut falls between characters. -/
theorem cut?_firstOf (h : t.toList = c :: cs) :
    cut? (firstOf c t).2 t = some (.ofList ((c :: cs).take (firstToken c cs).2),
      .ofList ((c :: cs).drop (firstToken c cs).2)) := by
  have happend : String.ofList ((c :: cs).take (firstToken c cs).2) ++
      String.ofList ((c :: cs).drop (firstToken c cs).2) = t := by
    rw [← String.ofList_append, List.take_append_drop, ← h, String.ofList_toList]
  have hcut := cut?_append (.ofList ((c :: cs).take (firstToken c cs).2))
    (.ofList ((c :: cs).drop (firstToken c cs).2))
  rwa [byteLength_ofList, ← (firstOf_eq h).1, happend] at hcut

/-- No cut falls into a character, and the tokens are those of the scan. -/
theorem tokenize?_eq (t : String) : tokenize? t = some (tokens t.toList) := by
  fun_induction tokenize? t with
  | case1 t ht =>
      rw [ht, tokens_nil]
  | case2 t c cs ht hcut =>
      rw [cut?_firstOf ht] at hcut
      cases hcut
  | case3 t c cs ht s rest hcut ih =>
      rw [cut?_firstOf ht] at hcut
      obtain ⟨rfl, rfl⟩ := Prod.ext_iff.mp (Option.some.inj hcut)
      rw [ih, String.toList_ofList, ht, tokens_cons, (firstOf_eq ht).2]
      rfl

theorem tokenLen_eq (h : t.toList = c :: cs) : tokenLen t = (firstOf c t).2 := by
  rw [tokenLen, h]
  rfl

/-- A token has a byte, ends before the text does and ends between characters. -/
theorem tokenLen_spec (h : t ≠ "") :
    0 < tokenLen t ∧ tokenLen t ≤ t.utf8ByteSize ∧
      (String.Pos.Raw.mk (tokenLen t)).IsValid t := by
  obtain ⟨c, cs, ht⟩ : ∃ c cs, t.toList = c :: cs := by
    refine List.exists_cons_of_ne_nil fun hnil => h ?_
    rw [← String.ofList_toList (s := t), hnil]
  obtain ⟨happend, hsize⟩ := eq_append_of_cut? (cut?_firstOf ht)
  rw [tokenLen_eq ht]
  have hvalid : (String.Pos.Raw.mk (firstOf c t).2).IsValid t :=
    String.Pos.Raw.isValid_iff_exists_append.mpr ⟨_, _, happend, by rw [← hsize]; rfl⟩
  exact ⟨firstOf_pos ht, hvalid.le_utf8ByteSize, hvalid⟩

end GraphStore.Clause

namespace GraphStore

open Clause

/-- An IRI reference and a string literal are as long as the productions of the grammar say, and
every token ends between characters. -/
theorem tokens_end_by_grammar (t : String) :
    (∀ n, iriLen? t = some n ↔
      ∃ i rest : String, IriReference i.toList ∧ t = i ++ rest ∧ i.utf8ByteSize = n) ∧
    (iriLen? t = none ↔ ∀ i rest : String, t = i ++ rest → ¬ IriReference i.toList) ∧
    (∀ (q : Char) (s rest : String), IsQuote q → Production q s.toList → t = s ++ rest →
      (s.length = 2 → rest.toList.head? ≠ some q) → stringLen t q = s.utf8ByteSize) ∧
    (t ≠ "" → 0 < tokenLen t ∧ tokenLen t ≤ t.utf8ByteSize ∧
      (String.Pos.Raw.mk (tokenLen t)).IsValid t) ∧
    tokenize? t = some (tokens t.toList) :=
  ⟨fun _ => iriLen?_eq_some, iriLen?_eq_none,
    fun _ _ _ hq hs ht hrest => stringLen_of_production hq hs ht hrest, tokenLen_spec,
    tokenize?_eq t⟩

/-- A long literal with characters of two bytes, two of its quotes and an escaped one; behind it
stands another quote. -/
theorem tokens_end_by_grammar_long :
    let s := "'''ü''\\'é'''"
    let t := s ++ "' <http://e.com/ß>"
    (Production '\'' s.toList ∧ stringLen t '\'' = 14) ∧
      t ≠ "" ∧ (String.Pos.Raw.mk (tokenLen t)).IsValid t := by
  intro s t
  obtain ⟨-, -, hliteral, htoken, -⟩ := tokens_end_by_grammar t
  let pieces := [['ü'], List.replicate 2 '\'' ++ ['\\', '\''], ['é']]
  have hpieces : ∀ p ∈ pieces, LongPiece '\'' p :=
    List.forall_mem_cons.mpr ⟨.char (Nat.zero_le 2) (by decide), List.forall_mem_cons.mpr
      ⟨.escape (Nat.le_refl 2) (by decide), List.forall_mem_singleton.mpr
        (.char (Nat.zero_le 2) (by decide))⟩⟩
  have hs : Production '\'' s.toList := by
    have htext : s.toList = '\'' :: '\'' :: '\'' :: (pieces.flatten ++ ['\'', '\'', '\'']) := by
      decide +kernel
    rw [htext]
    exact .long hpieces
  have hlength : s.length ≠ 2 := by decide +kernel
  have hsize : s.utf8ByteSize = 14 := by decide +kernel
  have hne : t ≠ "" := by decide +kernel
  refine ⟨⟨hs, ?_⟩, hne, (htoken hne).2.2⟩
  rw [← hsize]
  exact hliteral '\'' s _ (.inr rfl) hs rfl fun h => absurd h hlength

end GraphStore
