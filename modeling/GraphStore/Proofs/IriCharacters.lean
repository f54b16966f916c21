/-
# `GraphStore.Proofs.IriCharacters` — the characters of an absolute IRI

The grammar of IRIs gives each part characters of its own: a path has others than a host,
and an address in brackets others than a name.  Who puts an IRI into a text wants one
answer for all of them, since what matters there is that the bracket behind the IRI is
the first closing bracket, and that no blank breaks it off.

`IriGrammar.isIriChar` is the union of all parts.  Splitting a text into parts loses
nothing, so it is enough that the characters of each part are among them, one lemma for
each check of the grammar (`…_chars`).
-/
import GraphStore.Iri.Grammar

namespace GraphStore

namespace IriGrammar

/-- A character that may stand somewhere in an IRI. -/
def isIriChar (c : Char) : Bool := isQueryChar c || "%#[]".toList.contains c

/-- All characters of the text may stand in an IRI. -/
def IriChars (cs : List Char) : Prop := ∀ c ∈ cs, isIriChar c = true

theorem IriChars.nil : IriChars [] := fun _ h => nomatch h

theorem IriChars.append {cs ds : List Char} (hcs : IriChars cs) (hds : IriChars ds) :
    IriChars (cs ++ ds) := by
  intro c hc
  rcases List.mem_append.mp hc with h | h
  · exact hcs c h
  · exact hds c h

theorem IriChars.cons {c : Char} {cs : List Char} (hc : isIriChar c = true) (hcs : IriChars cs) :
    IriChars (c :: cs) :=
  List.forall_mem_cons.mpr ⟨hc, hcs⟩

theorem IriChars.of_all {ok : Char → Bool} (hok : ∀ c, ok c = true → isIriChar c = true)
    {cs : List Char} (h : cs.all ok = true) : IriChars cs :=
  fun c hc => hok c (List.all_eq_true.mp h c hc)

/-! ## Single characters -/

variable {c : Char}

theorem isIriChar_of_isQueryChar (h : isQueryChar c = true) : isIriChar c = true := by
  rw [isIriChar, h, Bool.true_or]

theorem isQueryChar_of_isFragmentChar (h : isFragmentChar c = true) : isQueryChar c = true := by
  rw [isQueryChar, h, Bool.true_or]

theorem isFragmentChar_of_isPathChar (h : isPathChar c = true) : isFragmentChar c = true := by
  rw [isFragmentChar, h, Bool.true_or]

theorem isIriChar_of_isFragmentChar (h : isFragmentChar c = true) : isIriChar c = true :=
  isIriChar_of_isQueryChar (isQueryChar_of_isFragmentChar h)

theorem isIriChar_of_isPathChar (h : isPathChar c = true) : isIriChar c = true :=
  isIriChar_of_isFragmentChar (isFragmentChar_of_isPathChar h)

theorem isIriChar_of_isHostChar (h : isHostChar c = true) : isIriChar c = true :=
  isIriChar_of_isPathChar (by rw [isPathChar, h, Bool.true_or])

theorem isIriChar_of_isUserChar (h : isUserChar c = true) : isIriChar c = true := by
  rcases Bool.or_eq_true_iff.mp h with h | h
  · exact isIriChar_of_isHostChar h
  · rw [eq_of_beq h]
    decide

theorem isIriChar_of_isAsciiUnreserved (h : isAsciiUnreserved c = true) : isIriChar c = true :=
  isIriChar_of_isHostChar (by rw [isHostChar, isUnreserved, h, Bool.true_or, Bool.true_or])

theorem isIriChar_of_isAsciiLetter (h : isAsciiLetter c = true) : isIriChar c = true :=
  isIriChar_of_isAsciiUnreserved (by rw [isAsciiUnreserved, h, Bool.true_or, Bool.true_or])

theorem isIriChar_of_isAsciiDigit (h : isAsciiDigit c = true) : isIriChar c = true :=
  isIriChar_of_isAsciiUnreserved (by rw [isAsciiUnreserved, h, Bool.or_true, Bool.true_or])

theorem isIriChar_of_isHexDigit (h : isHexDigit c = true) : isIriChar c = true := by
  simp only [isHexDigit, Bool.or_eq_true] at h
  rcases h with (h | h) | h
  · exact isIriChar_of_isAsciiDigit h
  · refine isIriChar_of_isAsciiLetter ?_
    simp only [isAsciiLetter, inRange, Bool.or_eq_true, Bool.and_eq_true, decide_eq_true_eq] at h ⊢
    omega
  · refine isIriChar_of_isAsciiLetter ?_
    simp only [isAsciiLetter, inRange, Bool.or_eq_true, Bool.and_eq_true, decide_eq_true_eq] at h ⊢
    omega

theorem isIriChar_of_isSchemeChar (h : isSchemeChar c = true) : isIriChar c = true := by
  simp only [isSchemeChar, Bool.or_eq_true] at h
  rcases h with (h | h) | h
  · exact isIriChar_of_isAsciiLetter h
  · exact isIriChar_of_isAsciiDigit h
  · have hmem : c ∈ "+-.".toList := List.contains_iff_mem.mp h
    have hall : "+-.".toList.all isIriChar = true := by decide
    exact List.all_eq_true.mp hall c hmem

/-! ## Parts -/

theorem allChars_chars {ok : Char → Bool} (hok : ∀ c, ok c = true → isIriChar c = true)
    {cs : List Char} (h : allChars ok cs = true) : IriChars cs := by
  fun_induction allChars ok cs with
  | case1 a b cs ih =>
      simp only [Bool.and_eq_true] at h
      exact .cons (by decide) (.cons (isIriChar_of_isHexDigit h.1.1)
        (.cons (isIriChar_of_isHexDigit h.1.2) (ih h.2)))
  | case2 c cs hne ih =>
      simp only [Bool.and_eq_true] at h
      exact .cons (hok c h.1.2) (ih h.2)
  | case3 => exact .nil

/-- A text between separators has no other characters than its fields. -/
theorem fields_chars {separator : Char} (hs : isIriChar separator = true) {cs : List Char}
    (h : ∀ f ∈ fields separator cs, IriChars f) : IriChars cs := by
  fun_induction fields separator cs with
  | case1 => exact .nil
  | case2 c cs hc ih =>
      rw [eq_of_beq hc]
      exact .cons hs (ih fun f hf => h f (List.mem_cons_of_mem _ hf))
  | case3 c cs hc f fs hfs ih =>
      rw [hfs] at ih
      have hfirst := h (c :: f) List.mem_cons_self
      refine .cons (hfirst c List.mem_cons_self) (ih fun g hg => ?_)
      rcases List.mem_cons.mp hg with rfl | hg
      · exact fun d hd => hfirst d (List.mem_cons_of_mem _ hd)
      · exact h g (List.mem_cons_of_mem _ hg)
  | case4 c cs hc hnil ih =>
      rw [hnil] at ih
      exact .cons (h [c] List.mem_cons_self c List.mem_cons_self) (ih fun f hf => nomatch hf)

theorem isAddress4_chars {cs : List Char} (h : isAddress4 cs = true) : IriChars cs := by
  have hpoint : isIriChar '.' = true := by decide
  refine fields_chars hpoint fun f hf => ?_
  simp only [isAddress4, Bool.and_eq_true] at h
  have hoctet := List.all_eq_true.mp h.2 f hf
  simp only [isOctet, Bool.and_eq_true] at hoctet
  exact .of_all (fun c => isIriChar_of_isAsciiDigit) hoctet.1.1.2

theorem isGroup_chars {cs : List Char} (h : isGroup cs = true) : IriChars cs := by
  rw [isGroup, Bool.and_eq_true] at h
  exact .of_all (fun c => isIriChar_of_isHexDigit) h.2

theorem groupCount_chars {fs : List (List Char)} {n : Nat} (h : groupCount fs = some n) :
    ∀ f ∈ fs, IriChars f := by
  fun_induction groupCount fs generalizing n with
  | case1 => exact fun f hf => nomatch hf
  | case2 f hgroup =>
      intro g hg
      rw [List.mem_singleton.mp hg]
      exact isGroup_chars hgroup
  | case3 f hgroup haddress =>
      intro g hg
      rw [List.mem_singleton.mp hg]
      exact isAddress4_chars haddress
  | case4 => cases h
  | case5 f fs hfs hgroup ih =>
      obtain ⟨m, hm, -⟩ := Option.map_eq_some_iff.mp h
      exact List.forall_mem_cons.mpr ⟨isGroup_chars hgroup, ih hm⟩
  | case6 => cases h

theorem splitDoubleColon_eq {cs : List Char} {r : List Char × List Char}
    (h : splitDoubleColon cs = some r) : cs = r.1 ++ ':' :: ':' :: r.2 := by
  fun_induction splitDoubleColon cs generalizing r with
  | case1 cs =>
      rw [← Option.some.inj h]
      rfl
  | case2 c cs hne ih =>
      obtain ⟨r', hr', rfl⟩ := Option.map_eq_some_iff.mp h
      rw [List.cons_append, ← ih hr']
  | case3 => cases h

theorem colonFields_chars {cs : List Char} {n : Nat} (h : groupCount (colonFields cs) = some n) :
    IriChars cs := by
  unfold colonFields at h
  split at h
  · rename_i hempty
    rw [List.isEmpty_iff.mp hempty]
    exact .nil
  · exact fields_chars (by decide) (groupCount_chars h)

theorem isAddress6_chars {cs : List Char} (h : isAddress6 cs = true) : IriChars cs := by
  unfold isAddress6 at h
  split at h
  · exact fields_chars (by decide) (groupCount_chars (eq_of_beq h))
  · rename_i before after hsplit
    dsimp only at h
    split at h
    · rename_i m n hm hn
      rw [splitDoubleColon_eq hsplit]
      exact (colonFields_chars hm).append (.cons (by decide) (.cons (by decide)
        (colonFields_chars hn)))
    · cases h

/-- A text is what stands before the first mark, the mark and what follows it. -/
theorem eq_of_dropWhile {mark : Char} {cs rest : List Char} {d : Char}
    (h : cs.dropWhile (· != mark) = d :: rest) :
    cs = cs.takeWhile (· != mark) ++ mark :: rest := by
  have hd := List.head?_dropWhile_not (· != mark) cs
  rw [h] at hd
  have hmark : d = mark := by
    simpa using hd
  rw [← hmark, ← h, hmark, List.takeWhile_append_dropWhile]

theorem takeWhile_eq_of_dropWhile {p : Char → Bool} {cs : List Char} (h : cs.dropWhile p = []) :
    cs.takeWhile p = cs := by
  have hsplit := List.takeWhile_append_dropWhile (p := p) (l := cs)
  rwa [h, List.append_nil] at hsplit

theorem isAddressFuture_chars {cs : List Char} (h : isAddressFuture cs = true) : IriChars cs := by
  cases cs with
  | nil => exact .nil
  | cons v cs =>
      simp only [isAddressFuture, Bool.and_eq_true, Bool.or_eq_true, beq_iff_eq] at h
      obtain ⟨⟨⟨⟨hv, -⟩, hversion⟩, -⟩, hrest⟩ := h
      have hversion : IriChars (cs.takeWhile (· != '.')) :=
        .of_all (fun c => isIriChar_of_isHexDigit) hversion
      have hchars : ∀ c, (isAsciiUnreserved c || isSubDelim c || c == ':') = true →
          isIriChar c = true := by
        intro c hc
        simp only [Bool.or_eq_true] at hc
        rcases hc with (hc | hc) | hc
        · exact isIriChar_of_isAsciiUnreserved hc
        · exact isIriChar_of_isHostChar (by rw [isHostChar, hc, Bool.or_true])
        · rw [eq_of_beq hc]
          decide
      refine .cons ?_ ?_
      · rcases hv with rfl | rfl <;> decide
      · cases hdrop : cs.dropWhile (· != '.') with
        | nil =>
            rw [takeWhile_eq_of_dropWhile hdrop] at hversion
            exact hversion
        | cons d rest =>
            rw [hdrop] at hrest
            rw [eq_of_dropWhile hdrop]
            exact hversion.append (.cons (by decide) (.of_all hchars hrest))

theorem isHostNumber_chars {cs : List Char} (h : isHostNumber cs = true) : IriChars cs := by
  cases cs with
  | nil => exact .nil
  | cons c cs =>
      simp only [isHostNumber, Bool.and_eq_true, beq_iff_eq] at h
      obtain ⟨rfl, h⟩ := h
      exact .cons (by decide) (.of_all (fun c => isIriChar_of_isAsciiDigit) h)

theorem isHost_chars {cs : List Char} (h : isHost cs = true) : IriChars cs := by
  unfold isHost at h
  split at h
  · rename_i cs
    dsimp only at h
    split at h
    · rename_i d number hdrop
      simp only [Bool.and_eq_true, Bool.or_eq_true] at h
      rw [eq_of_dropWhile hdrop]
      refine .cons (by decide) (IriChars.append ?_ (.cons (by decide) (isHostNumber_chars h.2)))
      rcases h.1 with h | h
      · exact isAddressFuture_chars h
      · exact isAddress6_chars h
    · cases h
  · rw [Bool.and_eq_true] at h
    rw [← List.takeWhile_append_dropWhile (p := (· != ':')) (l := cs)]
    exact (allChars_chars (fun c => isIriChar_of_isHostChar) h.1).append (isHostNumber_chars h.2)

theorem isAuthority_chars {cs : List Char} (h : isAuthority cs = true) : IriChars cs := by
  unfold isAuthority at h
  split at h
  · rename_i d host hdrop
    rw [Bool.and_eq_true] at h
    rw [eq_of_dropWhile hdrop]
    exact (allChars_chars (fun c => isIriChar_of_isUserChar) h.1).append
      (.cons (by decide) (isHost_chars h.2))
  · exact isHost_chars h

theorem isScheme_chars {cs : List Char} (h : isScheme cs = true) : IriChars cs := by
  cases cs with
  | nil => exact .nil
  | cons c cs =>
      rw [isScheme, Bool.and_eq_true] at h
      exact .cons (isIriChar_of_isAsciiLetter h.1)
        (.of_all (fun c => isIriChar_of_isSchemeChar) h.2)

end IriGrammar

/-! ## Whole texts -/

open IriGrammar

theorem IriParts.isScheme_of_splitScheme {cs scheme : List Char}
    (h : (splitScheme cs).1 = some scheme) : isScheme scheme = true := by
  unfold splitScheme at h
  dsimp only at h
  split at h
  · split at h
    · rename_i hscheme
      rwa [← Option.some.inj h]
    · cases h
  · cases h

/-- Nothing stands in an absolute IRI but characters of its parts and what separates them. -/
theorem isAbsoluteIri_chars {text : String} (h : isAbsoluteIri text = true) :
    IriChars text.toList := by
  rw [isAbsoluteIri, Bool.and_eq_true] at h
  rw [← IriParts.toText_ofText text.toList]
  generalize hparts : IriParts.ofText text.toList = parts at h
  have hscheme : ∀ s, parts.scheme = some s → IriChars s := by
    intro s hs
    rw [← hparts] at hs
    exact isScheme_chars (IriParts.isScheme_of_splitScheme hs)
  obtain ⟨scheme, authority, path, query, fragment⟩ := parts
  simp only [IriParts.wellFormed, Bool.and_eq_true] at h
  obtain ⟨-, ⟨⟨⟨hauthority, hpath⟩, hquery⟩, hfragment⟩, -⟩ := h
  simp only [IriParts.toText]
  refine (((IriChars.append ?_ ?_).append ?_).append ?_).append ?_
  · cases scheme with
    | none => exact .nil
    | some s => exact (hscheme s rfl).append (.cons (by decide) .nil)
  · cases authority with
    | none => exact .nil
    | some a => exact .cons (by decide) (.cons (by decide) (isAuthority_chars hauthority))
  · exact allChars_chars (fun c => isIriChar_of_isPathChar) hpath
  · cases query with
    | none => exact .nil
    | some q => exact .cons (by decide) (allChars_chars (fun c => isIriChar_of_isQueryChar) hquery)
  · cases fragment with
    | none => exact .nil
    | some f =>
        exact .cons (by decide) (allChars_chars (fun c => isIriChar_of_isFragmentChar) hfragment)

end GraphStore
