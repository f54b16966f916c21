/-
# `GraphStore.Proofs.Layout` — the tokens of a text that is laid out freely

An update text may be laid out in many ways: keywords in any case, any white space and
comments between the lexemes, or nothing where two lexemes cannot be taken for one.

    lexemes  l₁   l₂   l₃  …      Layout       text
             │    │    │   …   ◀──────────▶   gap w₁ gap w₂ gap w₃ …
             ▼    ▼    ▼                         │
    tokens   t₁   t₂   t₃  …   ◀─────────────────┘ Clause.tokens

`Layout` relates lexemes to texts, `Lexeme.Reads` to single tokens, and `tokens_layout`
closes the triangle: the scan of any such text has one token for each lexeme, and nothing
of the gaps.  The scan takes the longest word it can, so the proof looks at a lexeme with
the text behind it in place (`tokens_word`), never at a lexeme alone.
-/
import GraphStore.Proofs.IriCharacters
import GraphStore.Update.Clause
import Mathlib.Data.List.Forall2

namespace GraphStore.Clause

open Text IriGrammar

/-! ## Characters -/

section Characters

variable {c : Char}

/-- The code points of white space. -/
def blankCodes : List Nat :=
  [0x9, 0xa, 0xb, 0xc, 0xd, 0x20, 0x85, 0xa0, 0x1680, 0x2000, 0x2001, 0x2002, 0x2003, 0x2004,
    0x2005, 0x2006, 0x2007, 0x2008, 0x2009, 0x200a, 0x2028, 0x2029, 0x202f, 0x205f, 0x3000]

theorem mem_blankCodes_of_isBlank (h : isBlank c = true) : c.toNat ∈ blankCodes := by
  simp only [isBlank, inRange, Bool.or_eq_true, Bool.and_eq_true, decide_eq_true_eq,
    beq_iff_eq] at h
  have hspace : c = ' ' ↔ c.toNat = 0x20 := Char.toNat_inj.symm
  rw [hspace] at h
  simp only [blankCodes, List.mem_cons, List.not_mem_nil, or_false]
  omega

/-- No white space stands inside a word. -/
theorem isBlank_of_isWordChar (h : isWordChar c = true) : isBlank c = false := by
  have hcodes : ∀ n ∈ blankCodes, isWordChar (Char.ofNat n) = false := by decide +kernel
  refine Bool.eq_false_iff.mpr fun hblank => ?_
  have hword := hcodes _ (mem_blankCodes_of_isBlank hblank)
  rw [Char.ofNat_toNat, h] at hword
  cases hword

theorem isBlank_of_endsLine (h : endsLine c = true) : isBlank c = true := by
  simp only [endsLine, Bool.or_eq_true, beq_iff_eq] at h
  rcases h with rfl | rfl <;> decide

theorem isWordChar_of_isAsciiLetter (h : isAsciiLetter c = true) : isWordChar c = true := by
  have hascii : c.toNat < 128 := by
    simp only [isAsciiLetter, inRange, Bool.or_eq_true, Bool.and_eq_true, decide_eq_true_eq] at h
    omega
  rw [isWordChar, isAlphanumeric, if_pos hascii, h, Bool.true_or, Bool.true_or]

/-- The case of a letter does not matter to whether it is one. -/
theorem isAsciiLetter_of_asciiLower {d : Char} (h : asciiLower c = asciiLower d)
    (hd : isAsciiLetter d = true) : isAsciiLetter c = true := by
  have hlower : ∀ c : Char, isAsciiLetter (asciiLower c) = isAsciiLetter c := by
    intro c
    unfold asciiLower
    split
    · rename_i hc
      simp only [inRange, Bool.and_eq_true, decide_eq_true_eq] at hc
      have hvalid : (c.toNat + 32).isValidChar := .inl (by omega)
      have hcode : (Char.ofNat (c.toNat + 32)).toNat = c.toNat + 32 := by
        rw [Char.ofNat, dif_pos hvalid]
        rfl
      refine Bool.eq_iff_iff.mpr ?_
      simp only [isAsciiLetter, inRange, hcode, Bool.or_eq_true, Bool.and_eq_true,
        decide_eq_true_eq]
      omega
    · rfl
  rw [← hlower, h, hlower, hd]

theorem toNat_lt_of_isForbidden (h : isForbidden c = true) : c.toNat < 128 := by
  rw [isForbidden, Bool.or_eq_true, decide_eq_true_eq, List.contains_iff_mem] at h
  have hmarks : ("<\"\x7b|\x7d^\x60\\".toList.all fun d => d.toNat < 128) = true := by decide
  rcases h with h | h
  · exact of_decide_eq_true (List.all_eq_true.mp hmarks c h)
  · omega

/-- The characters of IRIs do not end a reference. -/
theorem isForbidden_of_isIriChar (h : isIriChar c = true) : isForbidden c = false ∧ c ≠ '>' := by
  have hascii : ∀ n < 128, isIriChar (Char.ofNat n) = true →
      isForbidden (Char.ofNat n) = false ∧ Char.ofNat n ≠ '>' := by
    decide +kernel
  by_cases hc : c.toNat < 128
  · have hcode := hascii c.toNat hc
    rw [Char.ofNat_toNat] at hcode
    exact hcode h
  · refine ⟨Bool.eq_false_iff.mpr fun hf => hc (toNat_lt_of_isForbidden hf), ?_⟩
    rintro rfl
    exact hc (by decide)

end Characters

/-! ## Lexemes and their layout -/

/-- A lexeme of an update text that only has transfers. -/
inductive Lexeme where
  /-- A keyword, in any case. -/
  | keyword (k : String)
  /-- A prefixed name. -/
  | word (cs : List Char)
  /-- An IRI between angle brackets. -/
  | reference (cs : List Char)
  | semicolon

namespace Lexeme

/-- The characters are a way to write the lexeme. -/
def Spells : Lexeme → List Char → Prop
  | keyword k, cs => isKeyword k cs = true
  | word w, cs => cs = w
  | reference i, cs => cs = '<' :: (i ++ ['>'])
  | semicolon, cs => cs = [';']

/-- The lexeme has characters of its kind, and no other ends it. -/
def Scannable : Lexeme → Prop
  | keyword k => k.toList ≠ [] ∧ k.toList.all isAsciiLetter = true
  | word w => w ≠ [] ∧ w.all isWordChar = true
  | reference i => ∀ c ∈ i, isForbidden c = false ∧ c ≠ '>'
  | semicolon => True

/-- The token is the one that the lexeme gives. -/
def Reads : Lexeme → Token → Prop
  | keyword k, t => t.is k = true
  | word w, t => t = .word w
  | reference i, t => t = .iri ('<' :: (i ++ ['>']))
  | semicolon, t => t = .other

end Lexeme

/-- White space and comments, which may be absent. -/
inductive Gap : List Char → Prop
  | nil : Gap []
  | blank {c : Char} {cs : List Char} : isBlank c = true → Gap cs → Gap (c :: cs)
  | comment {body : List Char} {e : Char} {cs : List Char} : (∀ c ∈ body, endsLine c = false) →
      endsLine e = true → Gap cs → Gap ('#' :: (body ++ e :: cs))

/-- No word goes on from the one text into the other. -/
def Apart (cs ds : List Char) : Prop :=
  ∀ c ∈ cs.getLast?, ∀ d ∈ ds.head?, isWordChar c = true → isWordChar d = false

/-- The text has the lexemes in order, with gaps around them; its last line may be a comment. -/
inductive Layout : List Lexeme → List Char → Prop
  | done {gap : List Char} : Gap gap → Layout [] gap
  | comment {gap body : List Char} : Gap gap → (∀ c ∈ body, endsLine c = false) →
      Layout [] (gap ++ '#' :: body)
  | next {l : Lexeme} {ls : List Lexeme} {gap written text : List Char} : Gap gap →
      l.Spells written → Apart written text → Layout ls text →
      Layout (l :: ls) (gap ++ (written ++ text))

/-! ## The first token of a text -/

variable {c : Char} {cs rest : List Char}

theorem tokens_nil : tokens [] = [] := by
  rw [tokens.eq_def]

theorem tokens_cons (c : Char) (cs : List Char) :
    tokens (c :: cs) =
      (firstToken c cs).1.toList ++ tokens ((c :: cs).drop (firstToken c cs).2) := by
  rw [tokens.eq_def]

theorem tokens_blank (h : isBlank c = true) (cs : List Char) : tokens (c :: cs) = tokens cs := by
  rw [tokens_cons, firstToken, if_pos h]
  rfl

/-- What a scan takes of a text ends where its characters end. -/
theorem takeWhile_append_of_head? {p : Char → Bool} (hcs : ∀ c ∈ cs, p c = true)
    (hrest : ∀ d ∈ rest.head?, p d = false) : (cs ++ rest).takeWhile p = cs := by
  rw [List.takeWhile_append_of_pos hcs]
  cases rest with
  | nil => rw [List.takeWhile_nil, List.append_nil]
  | cons d rest =>
      rw [List.takeWhile_cons_of_neg (by rw [hrest d rfl]; exact Bool.false_ne_true),
        List.append_nil]

theorem firstToken_comment (cs : List Char) :
    firstToken '#' cs = (none, 1 + (cs.takeWhile (!endsLine ·)).length) := by
  rw [firstToken, if_neg (by decide), if_pos (by decide)]

/-- A comment leaves no token. -/
theorem tokens_comment {body : List Char} (hbody : ∀ c ∈ body, endsLine c = false)
    (hrest : ∀ d ∈ rest.head?, endsLine d = true) :
    tokens ('#' :: (body ++ rest)) = tokens rest := by
  have htake : (body ++ rest).takeWhile (!endsLine ·) = body := by
    refine takeWhile_append_of_head? (fun c hc => ?_) fun d hd => ?_
    · rw [hbody c hc]
      rfl
    · rw [hrest d hd]
      rfl
  rw [tokens_cons, firstToken_comment, htake, Nat.add_comm, List.drop_succ_cons, List.drop_left]
  rfl

theorem tokens_gap {gap : List Char} (h : Gap gap) (rest : List Char) :
    tokens (gap ++ rest) = tokens rest := by
  induction h with
  | nil => rfl
  | blank hc _ ih => rw [List.cons_append, tokens_blank hc, ih]
  | @comment body e cs hbody he _ ih =>
      rw [List.cons_append, List.append_assoc, List.cons_append,
        tokens_comment hbody (fun d hd => by rw [← Option.some.inj hd, he]),
        tokens_blank (isBlank_of_endsLine he), ih]

/-- A word is read whole if no character of a word follows. -/
theorem tokens_word (hne : cs ≠ []) (hcs : ∀ c ∈ cs, isWordChar c = true)
    (hrest : ∀ d ∈ rest.head?, isWordChar d = false) :
    tokens (cs ++ rest) = .word cs :: tokens rest := by
  obtain ⟨c, cs, rfl⟩ := List.exists_cons_of_ne_nil hne
  obtain ⟨hc, hcs⟩ := List.forall_mem_cons.mp hcs
  -- no other kind of token begins with a character of a word
  have hother : ∀ d : Char, isWordChar d = false → (c == d) = false := by
    intro d hd
    refine beq_eq_false_iff_ne.mpr ?_
    rintro rfl
    rw [hc] at hd
    cases hd
  have hiri : iriLength? (c :: (cs ++ rest)) = none := by
    unfold iriLength?
    split
    · rename_i heq
      obtain rfl : c = '<' := (List.cons.inj heq).1
      exact absurd (hother '<' (by decide)) (by decide)
    · rfl
  have hfirst : firstToken c (cs ++ rest) = (some (.word (c :: cs)), 1 + cs.length) := by
    rw [firstToken, if_neg (by rw [isBlank_of_isWordChar hc]; exact Bool.false_ne_true),
      if_neg (by rw [hother '#' (by decide)]; exact Bool.false_ne_true),
      if_neg (by rw [hother '"' (by decide), hother '\x27' (by decide)]; exact Bool.false_ne_true)]
    simp only [hiri, hc, if_true, takeWhile_append_of_head? hcs hrest]
  rw [List.cons_append, tokens_cons, hfirst, Nat.add_comm, List.drop_succ_cons, List.drop_left]
  rfl

theorem iriTail?_append {i : List Char} (h : ∀ c ∈ i, isForbidden c = false ∧ c ≠ '>')
    (rest : List Char) : iriTail? (i ++ '>' :: rest) = some (i.length + 1) := by
  induction i with
  | nil => rfl
  | cons c cs ih =>
      obtain ⟨⟨hforbidden, hclosing⟩, hcs⟩ := List.forall_mem_cons.mp h
      rw [List.cons_append, iriTail?, beq_eq_false_iff_ne.mpr hclosing, hforbidden, ih hcs]
      rfl

/-- An IRI between brackets is read whole. -/
theorem tokens_reference {i : List Char} (h : ∀ c ∈ i, isForbidden c = false ∧ c ≠ '>')
    (rest : List Char) :
    tokens ('<' :: (i ++ ['>']) ++ rest) = .iri ('<' :: (i ++ ['>'])) :: tokens rest := by
  have hlength : iriLength? ('<' :: (i ++ ['>'] ++ rest)) = some (i ++ ['>']).length.succ := by
    rw [iriLength?, List.append_assoc, List.singleton_append, iriTail?_append h,
      List.length_append]
    rfl
  have hfirst : firstToken '<' (i ++ ['>'] ++ rest) =
      (some (.iri ('<' :: (i ++ ['>']))), (i ++ ['>']).length.succ) := by
    rw [firstToken, if_neg (by decide), if_neg (by decide), if_neg (by decide)]
    simp only [hlength, List.take_succ_cons, List.take_left]
  rw [List.cons_append, tokens_cons, hfirst, List.drop_succ_cons, List.drop_left]
  rfl

theorem tokens_semicolon (rest : List Char) : tokens (';' :: rest) = .other :: tokens rest := by
  have hfirst : firstToken ';' rest = (some .other, 1) := by
    rw [firstToken, if_neg (by decide), if_neg (by decide), if_neg (by decide)]
    rfl
  rw [tokens_cons, hfirst]
  rfl

/-! ## Whole texts -/

/-- A keyword has no characters but letters, in whatever case it is written. -/
theorem isAsciiLetter_of_isKeyword {k : String} (hk : k.toList.all isAsciiLetter = true)
    (h : isKeyword k cs = true) : ∀ c ∈ cs, isAsciiLetter c = true := by
  intro c hc
  have hlower : cs.map asciiLower = k.toList.map asciiLower := eq_of_beq h
  have hmem : asciiLower c ∈ k.toList.map asciiLower := by
    rw [← hlower]
    exact List.mem_map_of_mem hc
  obtain ⟨d, hd, heq⟩ := List.mem_map.mp hmem
  exact isAsciiLetter_of_asciiLower heq.symm (List.all_eq_true.mp hk d hd)

theorem head?_of_apart (hne : cs ≠ []) (hcs : ∀ c ∈ cs, isWordChar c = true)
    (h : Apart cs rest) : ∀ d ∈ rest.head?, isWordChar d = false := by
  intro d hd
  obtain ⟨c, hc⟩ := Option.isSome_iff_exists.mp (List.getLast?_isSome.mpr hne)
  exact h c hc d hd (hcs c (List.mem_of_getLast? hc))

/-- A lexeme in front of a text gives its token. -/
theorem tokens_lexeme {l : Lexeme} {written : List Char} (hl : l.Scannable)
    (hwritten : l.Spells written) (hapart : Apart written rest) :
    ∃ t, tokens (written ++ rest) = t :: tokens rest ∧ l.Reads t := by
  cases l with
  | keyword k =>
      have hchars : ∀ c ∈ written, isWordChar c = true := fun c hc =>
        isWordChar_of_isAsciiLetter (isAsciiLetter_of_isKeyword hl.2 hwritten c hc)
      have hne : written ≠ [] := by
        rintro rfl
        have hlower : [] = k.toList.map asciiLower := eq_of_beq hwritten
        exact hl.1 (List.map_eq_nil_iff.mp hlower.symm)
      exact ⟨.word written, tokens_word hne hchars (head?_of_apart hne hchars hapart), hwritten⟩
  | word w =>
      obtain rfl : written = w := hwritten
      have hchars := List.all_eq_true.mp hl.2
      exact ⟨.word written, tokens_word hl.1 hchars (head?_of_apart hl.1 hchars hapart), rfl⟩
  | reference i =>
      obtain rfl : written = '<' :: (i ++ ['>']) := hwritten
      exact ⟨_, tokens_reference hl rest, rfl⟩
  | semicolon =>
      obtain rfl : written = [';'] := hwritten
      exact ⟨.other, tokens_semicolon rest, rfl⟩

/-- However a text is laid out, it has one token for each lexeme. -/
theorem tokens_layout {ls : List Lexeme} {text : List Char} (h : Layout ls text)
    (hls : ∀ l ∈ ls, l.Scannable) : List.Forall₂ Lexeme.Reads ls (tokens text) := by
  induction h with
  | @done gap hgap =>
      rw [← List.append_nil gap, tokens_gap hgap, tokens_nil]
      exact .nil
  | @comment gap body hgap hbody =>
      rw [tokens_gap hgap, ← List.append_nil body, tokens_comment hbody (fun d hd => by cases hd),
        tokens_nil]
      exact .nil
  | next hgap hwritten hapart _ ih =>
      obtain ⟨hl, hls⟩ := List.forall_mem_cons.mp hls
      obtain ⟨t, ht, hreads⟩ := tokens_lexeme hl hwritten hapart
      rw [tokens_gap hgap, ht]
      exact .cons hreads (ih hls)

/-! ## The plain layout -/

/-- The lexeme as it is given; keywords keep their case. -/
def Lexeme.plain : Lexeme → List Char
  | keyword k => k.toList
  | word w => w
  | reference i => '<' :: (i ++ ['>'])
  | semicolon => [';']

/-- The lexemes with a space before each. -/
def render (ls : List Lexeme) : List Char := ls.flatMap fun l => ' ' :: l.plain

/-- Every list of lexemes has a layout. -/
theorem layout_render (ls : List Lexeme) : Layout ls (render ls) := by
  induction ls with
  | nil => exact .done .nil
  | cons l ls ih =>
      have hgap : Gap [' '] := .blank (by decide) .nil
      refine .next hgap (?_ : l.Spells l.plain) ?_ ih
      · cases l with
        | keyword k => exact beq_self_eq_true _
        | word | reference | semicolon => rfl
      · intro c hc d hd _
        cases ls with
        | nil => cases hd
        | cons l' ls =>
            rw [← Option.some.inj hd]
            decide

end GraphStore.Clause
