/-
# `GraphStore.Proofs.Quotation` — what stands in a string literal or a comment is not read

A string literal may hold anything: whole transfers, comment signs, brackets, the other quote,
its own quote behind a backslash, and between three quotes also one or two of them.  The scan of
clauses must find its end exactly, or it swallows what follows or reads what is inside.

    … text that ends outside ␣ │ literal │ text …      tokens  ts ++ other :: us
    … text that ends outside ␣ │ comment ⏎ │ text …    tokens  ts ++ us

Two facts make this picture.  A literal is one token of its own length, whatever is behind it
(`tokens_literal`), and a text that ends outside literals and comments is read without regard to
what is behind it (`tokens_append`).  The latter is about one token at a time: the only tokens
that could go on are those that reach the end of the text (`firstToken_append`).

Literals are those of the grammar, except that line breaks may stand in the short ones and that a
backslash may stand before any character; neither makes a difference to where they end.
-/
import Mathlib.Data.Bool.AllAny
import GraphStore.Proofs.Layout

namespace GraphStore.Clause

open Text

/-! ## Literals and comments -/

/-- The quotes of string literals. -/
def IsQuote (c : Char) : Prop := c = '"' ∨ c = '\''

instance : DecidablePred IsQuote := fun _ => inferInstanceAs (Decidable (_ ∨ _))

/-- What may stand between two quotes `q`. -/
inductive ShortContent (q : Char) : List Char → Prop
  | nil : ShortContent q []
  | char {c : Char} {cs : List Char} : c ≠ q → c ≠ '\\' → ShortContent q cs →
      ShortContent q (c :: cs)
  | escape (c : Char) {cs : List Char} : ShortContent q cs → ShortContent q ('\\' :: c :: cs)

/-- What may stand between three quotes `q` and three more: one or two of them are content if
another character follows. -/
inductive LongContent (q : Char) : List Char → Prop
  | nil : LongContent q []
  | char {n : Nat} {c : Char} {cs : List Char} : n ≤ 2 → c ≠ q → c ≠ '\\' → LongContent q cs →
      LongContent q (List.replicate n q ++ c :: cs)
  | escape {n : Nat} (c : Char) {cs : List Char} : n ≤ 2 → LongContent q cs →
      LongContent q (List.replicate n q ++ '\\' :: c :: cs)

/-- The string literals. -/
inductive StringLiteral : List Char → Prop
  | short {q : Char} {content : List Char} : IsQuote q → ShortContent q content →
      StringLiteral (q :: (content ++ [q]))
  | long {q : Char} {content : List Char} : IsQuote q → LongContent q content →
      StringLiteral (q :: q :: q :: (content ++ [q, q, q]))

/-- The comments, with the line break that ends them. -/
inductive Comment : List Char → Prop
  | line {content : List Char} {e : Char} : (∀ c ∈ content, endsLine c = false) →
      endsLine e = true → Comment ('#' :: (content ++ [e]))

/-- The spaces, tabs and line breaks of ASCII. -/
def asciiBlanks : List Char := [' ', '\t', '\n', '\r']

variable {q c : Char} {cs content rest s k : List Char}

theorem isBlank_of_mem_asciiBlanks (h : c ∈ asciiBlanks) : isBlank c = true := by
  have hall : ∀ c ∈ asciiBlanks, isBlank c = true := List.all_iff_forall_prop.mp (by decide)
  exact hall c h

theorem isForbidden_of_mem_asciiBlanks (h : c ∈ asciiBlanks) : isForbidden c = true := by
  have hall : ∀ c ∈ asciiBlanks, isForbidden c = true := List.all_iff_forall_prop.mp (by decide)
  exact hall c h

theorem ShortContent.plain (hcs : ∀ c ∈ cs, c ≠ q ∧ c ≠ '\\') (h : ShortContent q content) :
    ShortContent q (cs ++ content) := by
  induction cs with
  | nil => exact h
  | cons c cs ih =>
      obtain ⟨⟨hquote, hbackslash⟩, hcs⟩ := List.forall_mem_cons.mp hcs
      exact .char hquote hbackslash (ih hcs)

theorem LongContent.plain (hcs : ∀ c ∈ cs, c ≠ q ∧ c ≠ '\\') (h : LongContent q content) :
    LongContent q (cs ++ content) := by
  induction cs with
  | nil => exact h
  | cons c cs ih =>
      obtain ⟨⟨hquote, hbackslash⟩, hcs⟩ := List.forall_mem_cons.mp hcs
      exact .char (Nat.zero_le 2) hquote hbackslash (ih hcs)

theorem IsQuote.ne_backslash (h : IsQuote q) : q ≠ '\\' := by
  rcases h with rfl | rfl <;> decide

/-! ## Where literals end -/

theorem shortTail_cons (hc : c ≠ '\\') (cs : List Char) :
    shortTail q (c :: cs) = if c == q then 1 else shortTail q cs + 1 :=
  shortTail.eq_4 q c cs (fun h _ => hc h) fun _ _ h _ => hc h

theorem shortTail_content (hq : IsQuote q) (h : ShortContent q content) (rest : List Char) :
    shortTail q (content ++ q :: rest) = content.length + 1 := by
  induction h with
  | nil => rw [List.nil_append, shortTail_cons hq.ne_backslash, if_pos (beq_self_eq_true q)]; rfl
  | char hquote hbackslash _ ih =>
      rw [List.cons_append, shortTail_cons hbackslash, beq_eq_false_iff_ne.mpr hquote, ih]
      rfl
  | escape c _ ih => rw [List.cons_append, List.cons_append, shortTail, ih]; rfl

theorem longTail_cons (hc : c ≠ '\\') (cs : List Char) :
    longTail q (c :: cs) =
      if [q, q, q].isPrefixOf (c :: cs) then 3 else longTail q cs + 1 :=
  longTail.eq_4 q c cs (fun h _ => hc h) fun _ _ h _ => hc h

/-- Fewer than three quotes do not end a long literal. -/
theorem longTail_replicate (hq : IsQuote q) (hc : c ≠ q) {n : Nat} (hn : n ≤ 2) :
    longTail q (List.replicate n q ++ c :: cs) = n + longTail q (c :: cs) := by
  have hother : (q == c) = false := beq_eq_false_iff_ne.mpr hc.symm
  obtain rfl | rfl | rfl : n = 0 ∨ n = 1 ∨ n = 2 := by omega
  · exact (Nat.zero_add _).symm
  · show longTail q (q :: c :: cs) = _
    rw [longTail_cons hq.ne_backslash]
    simp only [List.isPrefixOf, hother, Bool.false_and, Bool.and_false]
    exact Nat.add_comm _ 1
  · show longTail q (q :: q :: c :: cs) = _
    rw [longTail_cons hq.ne_backslash, longTail_cons hq.ne_backslash]
    simp only [List.isPrefixOf, hother, Bool.false_and, Bool.and_false]
    exact Nat.add_comm _ 2

theorem longTail_content (hq : IsQuote q) (h : LongContent q content) (rest : List Char) :
    longTail q (content ++ q :: q :: q :: rest) = content.length + 3 := by
  induction h with
  | nil =>
      rw [List.nil_append, longTail_cons hq.ne_backslash, if_pos (by simp [List.isPrefixOf])]
      rfl
  | @char n c cs hn hquote hbackslash _ ih =>
      have hother : (q == c) = false := beq_eq_false_iff_ne.mpr hquote.symm
      rw [List.append_assoc, List.cons_append, longTail_replicate hq hquote hn,
        longTail_cons hbackslash, ih]
      simp only [List.isPrefixOf, hother, Bool.false_and, Bool.false_eq_true, if_false,
        List.length_append, List.length_replicate, List.length_cons]
      omega
  | @escape n c cs hn _ ih =>
      rw [List.append_assoc, List.cons_append, List.cons_append,
        longTail_replicate hq hq.ne_backslash.symm hn, longTail, ih]
      simp only [List.length_append, List.length_replicate, List.length_cons]
      omega

theorem stringLength_short (hq : IsQuote q) (h : ShortContent q content)
    (hrest : content = [] → rest.head? ≠ some q) :
    stringLength q (q :: (content ++ q :: rest)) = content.length + 2 := by
  have hshort : [q, q, q].isPrefixOf (q :: (content ++ q :: rest)) = false := by
    cases h with
    | nil =>
        cases rest with
        | nil => simp [List.isPrefixOf]
        | cons d rest =>
            have hd : (q == d) = false := beq_eq_false_iff_ne.mpr fun h => hrest rfl (h ▸ rfl)
            simp [List.isPrefixOf, hd]
    | char hquote _ _ => simp [List.isPrefixOf, beq_eq_false_iff_ne.mpr hquote.symm]
    | escape c _ => simp [List.isPrefixOf, beq_eq_false_iff_ne.mpr hq.ne_backslash]
  rw [stringLength, hshort]
  show shortTail q (content ++ q :: rest) + 1 = _
  rw [shortTail_content hq h]

theorem stringLength_long (hq : IsQuote q) (h : LongContent q content) (rest : List Char) :
    stringLength q (q :: q :: q :: (content ++ q :: q :: q :: rest)) = content.length + 6 := by
  rw [stringLength, if_pos (by simp [List.isPrefixOf])]
  show longTail q (content ++ q :: q :: q :: rest) + 3 = _
  rw [longTail_content hq h]

/-- A literal is as long as it is, whatever stands behind it; only an empty short one must not be
followed by another quote. -/
theorem stringLength_literal (h : StringLiteral s) (hrest : ∀ c ∈ rest.head?, ¬ IsQuote c) :
    ∃ q cs, s = q :: cs ∧ IsQuote q ∧ stringLength q (q :: (cs ++ rest)) = s.length := by
  cases h with
  | @short q content hq hcontent =>
      refine ⟨q, content ++ [q], rfl, hq, ?_⟩
      rw [List.append_assoc, List.singleton_append,
        stringLength_short hq hcontent fun _ hhead => hrest q hhead hq]
      simp
  | @long q content hq hcontent =>
      refine ⟨q, q :: q :: (content ++ [q, q, q]), rfl, hq, ?_⟩
      rw [List.cons_append, List.cons_append, List.append_assoc]
      exact (stringLength_long hq hcontent rest).trans (by simp)

theorem firstToken_quote (hq : IsQuote q) (cs : List Char) :
    firstToken q cs = (some .other, stringLength q (q :: cs)) := by
  rcases hq with rfl | rfl <;>
    rw [firstToken, if_neg (by decide), if_neg (by decide), if_pos (by decide)]

/-- A literal is one token. -/
theorem tokens_literal (h : StringLiteral s) (hrest : ∀ c ∈ rest.head?, ¬ IsQuote c) :
    tokens (s ++ rest) = .other :: tokens rest := by
  obtain ⟨q, cs, rfl, hq, hlength⟩ := stringLength_literal h hrest
  rw [List.cons_append, tokens_cons, firstToken_quote hq, hlength, ← List.cons_append,
    List.drop_left]
  rfl

/-- A comment is none. -/
theorem tokens_of_comment (h : Comment k) (rest : List Char) :
    tokens (k ++ rest) = tokens rest := by
  obtain ⟨hcontent, he⟩ := h
  have hgap : Gap _ := .comment hcontent he .nil
  exact tokens_gap hgap rest

/-! ## Texts that end outside literals and comments -/

/-- The pieces that the scan cuts a text into: tokens, comments and single blanks. -/
def pieces : List Char → List (List Char)
  | [] => []
  | c :: cs =>
    (c :: cs).take (firstToken c cs).2 :: pieces ((c :: cs).drop (firstToken c cs).2)
termination_by cs => cs.length
decreasing_by
  have := firstToken_pos c cs
  simp only [List.length_drop, List.length_cons]
  omega

/-- The piece is a comment or a string literal, which may be unfinished. -/
def Quotes (piece : List Char) : Prop := ∃ c ∈ piece.head?, c = '#' ∨ IsQuote c

/-- The text is empty, or it ends with an ASCII blank that stands in no literal and no comment. -/
def EndsOutside (text : List Char) : Prop :=
  ∀ last ∈ (pieces text).getLast?, ¬ Quotes last ∧ ∃ c ∈ last.getLast?, c ∈ asciiBlanks

instance : DecidablePred Quotes := fun piece =>
  decidable_of_iff (piece.head?.any fun c => decide (c = '#' ∨ IsQuote c))
    (by simp [Quotes, Option.any_eq_true])

-- not by search, which could go through all characters
instance : DecidablePred EndsOutside := fun text =>
  decidable_of_iff ((pieces text).getLast?.all fun last =>
      !decide (Quotes last) && last.getLast?.any fun c => asciiBlanks.contains c)
    (by simp [EndsOutside, Option.any_eq_true, Option.all_eq_true])

theorem pieces_cons (c : Char) (cs : List Char) :
    pieces (c :: cs) =
      (c :: cs).take (firstToken c cs).2 :: pieces ((c :: cs).drop (firstToken c cs).2) := by
  rw [pieces]

/-! ## No token is longer than the text -/

theorem shortTail_le (q : Char) (cs : List Char) : shortTail q cs ≤ cs.length := by
  fun_induction shortTail q cs with
  | case1 => exact Nat.le_refl 0
  | case2 => exact Nat.le_refl 1
  | case3 c cs ih => simp only [List.length_cons]; omega
  | case4 c cs _ _ hquote => simp only [List.length_cons]; omega
  | case5 c cs _ _ hquote ih => simp only [List.length_cons]; omega

theorem longTail_le (q : Char) (cs : List Char) : longTail q cs ≤ cs.length := by
  fun_induction longTail q cs with
  | case1 => exact Nat.le_refl 0
  | case2 => exact Nat.le_refl 1
  | case3 c cs ih => simp only [List.length_cons]; omega
  | case4 c cs _ _ hprefix => exact (List.isPrefixOf_iff_prefix.mp hprefix).length_le
  | case5 c cs _ _ hprefix ih => simp only [List.length_cons]; omega

theorem stringLength_le (q : Char) (cs : List Char) :
    stringLength q (c :: cs) ≤ (c :: cs).length := by
  unfold stringLength
  split
  · rename_i hprefix
    have hthree := (List.isPrefixOf_iff_prefix.mp hprefix).length_le
    have htail := longTail_le q ((c :: cs).drop 3)
    simp only [List.length_drop, List.length_cons, List.length_nil] at hthree htail ⊢
    omega
  · have htail := shortTail_le q cs
    simp only [List.drop_succ_cons, List.drop_zero, List.length_cons]
    omega

theorem iriTail?_le {n : Nat} (h : iriTail? cs = some n) : n ≤ cs.length := by
  induction cs generalizing n with
  | nil => cases h
  | cons c cs ih =>
      rw [iriTail?] at h
      split at h
      · rw [← Option.some.inj h]
        exact Nat.succ_le_succ (Nat.zero_le _)
      · split at h
        · cases h
        · obtain ⟨m, hm, rfl⟩ := Option.map_eq_some_iff.mp h
          exact Nat.succ_le_succ (ih hm)

theorem iriLength?_le {n : Nat} (h : iriLength? cs = some n) : n ≤ cs.length := by
  unfold iriLength? at h
  split at h
  · obtain ⟨m, hm, rfl⟩ := Option.map_eq_some_iff.mp h
    exact Nat.succ_le_succ (iriTail?_le hm)
  · cases h

theorem firstToken_le (c : Char) (cs : List Char) : (firstToken c cs).2 ≤ (c :: cs).length := by
  have htake (p : Char → Bool) : 1 + (cs.takeWhile p).length ≤ (c :: cs).length := by
    rw [Nat.add_comm]
    exact Nat.succ_le_succ (List.takeWhile_prefix p).length_le
  unfold firstToken
  split
  · exact Nat.succ_le_succ (Nat.zero_le _)
  · split
    · exact htake _
    · split
      · exact stringLength_le c cs
      · split
        · exact iriLength?_le ‹_›
        · split
          · exact htake _
          · exact Nat.succ_le_succ (Nat.zero_le _)

/-! ## What ends before the end of a text

It ends there in a longer text too.  For that the text must go on behind it, if only by the quotes
that a literal could still take. -/

theorem ne_backslash (hend : c = '\\' → cs = [] → False)
    (hescape : ∀ (d : Char) (ds : List Char), c = '\\' → cs = d :: ds → False) : c ≠ '\\' := by
  intro hc
  cases cs with
  | nil => exact hend hc rfl
  | cons d ds => exact hescape d ds hc rfl

theorem shortTail_append (h : shortTail q cs < cs.length) (rest : List Char) :
    shortTail q (cs ++ rest) = shortTail q cs := by
  fun_induction shortTail q cs with
  | case1 => exact absurd h (Nat.lt_irrefl 0)
  | case2 => exact absurd h (Nat.lt_irrefl 1)
  | case3 c cs ih =>
      rw [List.cons_append, List.cons_append, shortTail, ih (Nat.lt_of_add_lt_add_right h)]
  | case4 c cs hend hescape hquote =>
      rw [List.cons_append, shortTail_cons (ne_backslash hend hescape), if_pos hquote]
  | case5 c cs hend hescape hquote ih =>
      rw [List.cons_append, shortTail_cons (ne_backslash hend hescape), if_neg hquote,
        ih (Nat.lt_of_succ_lt_succ h)]

theorem shortTail_pos (hcs : cs ≠ []) : 0 < shortTail q cs := by
  fun_cases shortTail q cs with
  | case1 => exact absurd rfl hcs
  | case2 | case3 | case4 | case5 => exact Nat.succ_pos _

theorem isPrefixOf_append {p : List Char} (h : p.length ≤ cs.length) (rest : List Char) :
    p.isPrefixOf (cs ++ rest) = p.isPrefixOf cs := by
  refine Bool.eq_iff_iff.mpr ?_
  rw [List.isPrefixOf_iff_prefix, List.isPrefixOf_iff_prefix]
  constructor
  · exact fun hp => List.prefix_of_prefix_length_le hp (List.prefix_append cs rest) h
  · exact fun hp => hp.trans (List.prefix_append cs rest)

/-- What ends a long literal are three quotes. -/
theorem three_le_longTail (h : longTail q cs < cs.length) : 3 ≤ longTail q cs := by
  fun_induction longTail q cs with
  | case1 => exact absurd h (Nat.lt_irrefl 0)
  | case2 => exact absurd h (Nat.lt_irrefl 1)
  | case3 c cs ih => exact Nat.le_add_right_of_le (ih (Nat.lt_of_add_lt_add_right h))
  | case4 => exact Nat.le_refl 3
  | case5 c cs _ _ _ ih => exact Nat.le_add_right_of_le (ih (Nat.lt_of_succ_lt_succ h))

theorem longTail_append (h : longTail q cs < cs.length) (rest : List Char) :
    longTail q (cs ++ rest) = longTail q cs := by
  have hthree := three_le_longTail h
  have hprefix := @isPrefixOf_append cs [q, q, q] (Nat.le_trans hthree (Nat.le_of_lt h)) rest
  fun_induction longTail q cs with
  | case1 => exact absurd h (Nat.lt_irrefl 0)
  | case2 => exact absurd h (Nat.lt_irrefl 1)
  | case3 c cs ih =>
      have htail := Nat.lt_of_add_lt_add_right h
      have hthree := three_le_longTail htail
      rw [List.cons_append, List.cons_append, longTail,
        ih htail hthree (isPrefixOf_append (Nat.le_trans hthree (Nat.le_of_lt htail)) rest)]
  | case4 c cs hend hescape hquotes =>
      rw [List.cons_append] at hprefix ⊢
      rw [longTail_cons (ne_backslash hend hescape), hprefix, if_pos hquotes]
  | case5 c cs hend hescape hquotes ih =>
      have htail := Nat.lt_of_succ_lt_succ h
      have hthree := three_le_longTail htail
      rw [List.cons_append] at hprefix ⊢
      rw [longTail_cons (ne_backslash hend hescape), hprefix, if_neg hquotes,
        ih htail hthree (isPrefixOf_append (Nat.le_trans hthree (Nat.le_of_lt htail)) rest)]

theorem stringLength_append (h : stringLength q (c :: cs) < (c :: cs).length) (rest : List Char) :
    stringLength q (c :: cs ++ rest) = stringLength q (c :: cs) := by
  have hthree : [q, q, q].length ≤ (c :: cs).length := by
    unfold stringLength at h
    split at h
    · rename_i hprefix
      exact (List.isPrefixOf_iff_prefix.mp hprefix).length_le
    · have htail : shortTail q cs < cs.length := Nat.lt_of_succ_lt_succ h
      have hpos : 0 < shortTail q cs :=
        shortTail_pos (List.length_pos_iff.mp (Nat.zero_lt_of_lt htail))
      simp only [List.length_cons, List.length_nil]
      omega
  rw [stringLength, isPrefixOf_append hthree]
  rw [stringLength] at h ⊢
  split
  · rename_i hprefix
    rw [if_pos hprefix] at h
    have hdrop : (c :: cs ++ rest).drop 3 = (c :: cs).drop 3 ++ rest :=
      List.drop_append_of_le_length hthree
    rw [hdrop, longTail_append]
    rw [List.length_drop]
    omega
  · rename_i hprefix
    rw [if_neg hprefix] at h
    exact congrArg (· + 1) (shortTail_append (Nat.lt_of_succ_lt_succ h) rest)

theorem iriTail?_append_of_getLast? (h : ∃ d ∈ cs.getLast?, isForbidden d = true)
    (rest : List Char) : iriTail? (cs ++ rest) = iriTail? cs := by
  induction cs with
  | nil => exact absurd h (by simp)
  | cons c cs ih =>
      rw [List.cons_append, iriTail?, iriTail?]
      split
      · rfl
      · split
        · rfl
        · rename_i hforbidden
          cases cs with
          | nil =>
              obtain ⟨d, hd, hd'⟩ := h
              rw [← Option.some.inj hd] at hd'
              exact absurd hd' hforbidden
          | cons d ds => rw [ih h]

theorem iriLength?_append (h : ∃ d ∈ cs.getLast?, isForbidden d = true) (rest : List Char) :
    iriLength? (c :: (cs ++ rest)) = iriLength? (c :: cs) := by
  by_cases hc : c = '<'
  · subst hc
    rw [iriLength?, iriLength?, iriTail?_append_of_getLast? h]
  · have hnone : ∀ ds, iriLength? (c :: ds) = none := by
      intro ds
      unfold iriLength?
      split
      · rename_i heq
        exact absurd (List.cons.inj heq).1 hc
      · rfl
    rw [hnone, hnone]

theorem takeWhile_append_of_lt {p : Char → Bool} (h : (cs.takeWhile p).length < cs.length)
    (rest : List Char) : (cs ++ rest).takeWhile p = cs.takeWhile p := by
  rw [List.takeWhile_append, if_neg (Nat.ne_of_lt h)]

/-- In a text that ends with a blank, no token goes on behind the end but a comment or a literal. -/
theorem firstToken_append (hlast : ∃ d ∈ (c :: cs).getLast?, d ∈ asciiBlanks)
    (hclosed : c = '#' ∨ IsQuote c → (firstToken c cs).2 < (c :: cs).length) (rest : List Char) :
    firstToken c (cs ++ rest) = firstToken c cs := by
  by_cases hblank : isBlank c = true
  · rw [firstToken, firstToken, if_pos hblank, if_pos hblank]
  by_cases hcomment : c = '#'
  · subst hcomment
    have hlt := hclosed (.inl rfl)
    rw [firstToken_comment, List.length_cons, Nat.add_comm] at hlt
    rw [firstToken_comment, firstToken_comment,
      takeWhile_append_of_lt (Nat.lt_of_succ_lt_succ hlt)]
  by_cases hquote : IsQuote c
  · have hlt := hclosed (.inr hquote)
    rw [firstToken_quote hquote] at hlt
    rw [firstToken_quote hquote, firstToken_quote hquote, ← List.cons_append,
      stringLength_append hlt]
  -- all other tokens end at a blank
  obtain ⟨d, hd, hd'⟩ : ∃ d ∈ cs.getLast?, d ∈ asciiBlanks := by
    obtain ⟨d, hd, hd'⟩ := hlast
    cases cs with
    | nil =>
        rw [← Option.some.inj hd] at hd'
        exact absurd (isBlank_of_mem_asciiBlanks hd') hblank
    | cons e es => exact ⟨d, hd, hd'⟩
  have hword : (cs.takeWhile isWordChar).length < cs.length := by
    refine Nat.lt_of_le_of_ne (List.takeWhile_prefix isWordChar).length_le fun hlength => ?_
    have hwhole := (List.takeWhile_prefix isWordChar).eq_of_length hlength
    have hmem : d ∈ cs.takeWhile isWordChar := hwhole.symm ▸ List.mem_of_getLast? hd
    have hnot := isBlank_of_isWordChar (List.all_eq_true.mp List.all_takeWhile d hmem)
    rw [isBlank_of_mem_asciiBlanks hd'] at hnot
    cases hnot
  have hiri := iriLength?_append (c := c) ⟨d, hd, isForbidden_of_mem_asciiBlanks hd'⟩ rest
  have hnumber : ¬ (c == '#') = true := fun h => hcomment (eq_of_beq h)
  have hquotes : ¬ (c == '"' || c == '\'') = true := fun h =>
    hquote ((Bool.or_eq_true _ _ ▸ h).imp eq_of_beq eq_of_beq)
  rw [firstToken, firstToken, if_neg hblank, if_neg hblank, if_neg hnumber, if_neg hnumber,
    if_neg hquotes, if_neg hquotes, hiri]
  cases hlength : iriLength? (c :: cs) with
  | some n =>
      simp only []
      rw [← List.cons_append, List.take_append_of_le_length (iriLength?_le hlength)]
  | none =>
      simp only []
      rw [takeWhile_append_of_lt hword]

/-! ## Pieces -/

/-- Nothing is lost between the pieces. -/
theorem flatten_pieces (text : List Char) : (pieces text).flatten = text := by
  induction text using pieces.induct with
  | case1 =>
      rw [pieces]
      rfl
  | case2 c cs ih => rw [pieces_cons, List.flatten_cons, ih, List.take_append_drop]

theorem EndsOutside.tail (h : EndsOutside (c :: cs)) :
    EndsOutside ((c :: cs).drop (firstToken c cs).2) := by
  intro last hlast
  refine h last ?_
  rw [pieces_cons, ← List.singleton_append, List.getLast?_append, Option.mem_def.mp hlast]
  rfl

/-- The last character is one of the blanks. -/
theorem EndsOutside.exists_getLast? (h : EndsOutside (c :: cs)) :
    ∃ d ∈ (c :: cs).getLast?, d ∈ asciiBlanks := by
  have hne : pieces (c :: cs) ≠ [] := by
    rw [pieces_cons]
    exact List.cons_ne_nil _ _
  obtain ⟨before, last, hpieces⟩ := List.eq_nil_or_concat' (pieces (c :: cs)) |>.resolve_left hne
  obtain ⟨-, d, hd, hblank⟩ := h last (by rw [hpieces, List.getLast?_concat]; rfl)
  refine ⟨d, ?_, hblank⟩
  rw [← flatten_pieces (c :: cs), hpieces, List.flatten_append, List.flatten_singleton,
    List.getLast?_append, Option.mem_def.mp hd]
  rfl

/-- A literal or a comment ends before the text does. -/
theorem EndsOutside.firstToken_lt (h : EndsOutside (c :: cs)) (hc : c = '#' ∨ IsQuote c) :
    (firstToken c cs).2 < (c :: cs).length := by
  refine Nat.lt_of_not_le fun hle => ?_
  have hpieces : pieces (c :: cs) = [c :: cs] := by
    rw [pieces_cons, List.take_of_length_le hle, List.drop_of_length_le hle, pieces]
  exact (h (c :: cs) (by rw [hpieces]; rfl)).1 ⟨c, rfl, hc⟩

/-- A text that ends outside literals and comments is read without regard to what is behind it. -/
theorem tokens_append {text : List Char} (h : EndsOutside text) (rest : List Char) :
    tokens (text ++ rest) = tokens text ++ tokens rest := by
  induction text using pieces.induct with
  | case1 =>
      rw [tokens_nil]
      rfl
  | case2 c cs ih =>
      have hfirst := firstToken_append h.exists_getLast? h.firstToken_lt rest
      rw [List.cons_append, tokens_cons, hfirst, ← List.cons_append,
        List.drop_append_of_le_length (firstToken_le c cs), ih h.tail, tokens_cons c cs,
        List.append_assoc]

end GraphStore.Clause

namespace GraphStore

open Clause

/-- Behind a text that ends outside literals and comments, one string literal may stand for any
other, and one comment for any other. -/
theorem quoted_text_unread {a : String} (ha : EndsOutside a.toList) (b : String) :
    (∀ s s' : String, StringLiteral s.toList → StringLiteral s'.toList →
      (∀ c ∈ b.toList.head?, ¬ IsQuote c) →
      transferClauses (a ++ s ++ b) = transferClauses (a ++ s' ++ b)) ∧
    ∀ k k' : String, Comment k.toList → Comment k'.toList →
      transferClauses (a ++ k ++ b) = transferClauses (a ++ k' ++ b) := by
  have hsplit : ∀ t : String, transferClauses (a ++ t ++ b) =
      ofTokens (tokens a.toList ++ tokens (t.toList ++ b.toList)) := by
    intro t
    rw [transferClauses, String.toList_append, String.toList_append, List.append_assoc,
      tokens_append ha]
  constructor
  · intro s s' hs hs' hb
    rw [hsplit, hsplit, tokens_literal hs hb, tokens_literal hs' hb]
  · intro k k' hk hk'
    rw [hsplit, hsplit, tokens_of_comment hk, tokens_of_comment hk']

/-- A literal and a comment that hold what looks like transfers, between two transfers; the text
before them has a comment with a quote and a bracket that opens no IRI. -/
theorem quoted_text_unread_transfers :
    let a := "ADD <http://e.com/a> TO DEFAULT ; # it's\nFILTER(?x <\t"
    let b := " ; COPY <http://e.com/a> TO <http://e.com/b>"
    let s := "'''MOVE <a> TO <b> # it''s'''"
    let s' := "\"ADD <a> TO <b> \\\" '''\""
    (transferClauses (a ++ s ++ b) = transferClauses (a ++ s' ++ b) ∧
      transferClauses (a ++ s' ++ b) = [⟨.add, false⟩, ⟨.copy, false⟩]) ∧
    transferClauses (a ++ "# MOVE <a> TO <b> \"\n" ++ b) = transferClauses (a ++ "#\r" ++ b) := by
  intro a b s s'
  have ha : EndsOutside a.toList := by decide +kernel
  have hs : StringLiteral s.toList := by
    have htext : s.toList = '\'' :: '\'' :: '\'' :: ("MOVE <a> TO <b> # it".toList ++
        (List.replicate 2 '\'' ++ ['s']) ++ ['\'', '\'', '\'']) := by decide +kernel
    rw [htext]
    exact .long (.inr rfl) (.plain (List.all_iff_forall_prop.mp (by decide))
      (.char (Nat.le_refl 2) (by decide) (by decide) .nil))
  have hs' : StringLiteral s'.toList := by
    have htext : s'.toList = '"' :: ("ADD <a> TO <b> ".toList ++
        '\\' :: '"' :: (" '''".toList ++ []) ++ ['"']) := by decide +kernel
    rw [htext]
    exact .short (.inl rfl) (.plain (List.all_iff_forall_prop.mp (by decide))
      (.escape '"' (.plain (List.all_iff_forall_prop.mp (by decide)) .nil)))
  have hk : Comment "# MOVE <a> TO <b> \"\n".toList :=
    @Comment.line " MOVE <a> TO <b> \"".toList '\n' (List.all_iff_forall_prop.mp (by decide)) rfl
  have hk' : Comment "#\r".toList := @Comment.line [] '\r' (List.forall_mem_nil _) rfl
  have hb : ∀ c ∈ b.toList.head?, ¬ IsQuote c := by
    have hspace : b.toList.head? = some ' ' := by decide +kernel
    intro c hc
    obtain rfl : ' ' = c := Option.some.inj (hspace.symm.trans hc)
    decide
  obtain ⟨hliterals, hcomments⟩ := quoted_text_unread ha b
  exact ⟨⟨hliterals s s' hs hs' hb, by decide +kernel⟩, hcomments _ _ hk hk'⟩

end GraphStore
