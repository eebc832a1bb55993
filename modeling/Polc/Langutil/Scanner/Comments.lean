import Polc.Langutil.Scanner.Tokens

/-!
# Comments are transparent

Between two tokens there are only whitespace and comments, unless a documentation comment is joined
with an empty one: the line behind it is taken for a part of the comment.
-/

namespace Langutil

open List

namespace Scanner

/-! ### Gaps -/

/-- The text up to the end of its line. -/
inductive LineText : List Char → List Char → Prop
  | stop {s : List Char} (h : s = [] ∨ isUnicodeLinebreak s = true) : LineText s s
  | cons {c : Char} {r s : List Char} (h : isUnicodeLinebreak (c :: r) = false) :
    LineText r s → LineText (c :: r) s

/-- The text up to its first `*/`. -/
inductive BlockText : List Char → List Char → Prop
  | stop {s : List Char} : BlockText ('*' :: '/' :: s) s
  | cons {c : Char} {r s : List Char} (h : c ≠ '*' ∨ currentChar r ≠ '/') :
    BlockText r s → BlockText (c :: r) s

/-- There are only whitespace and complete comments in between. -/
inductive Skips : List Char → List Char → Prop
  | refl {s : List Char} : Skips s s
  | whitespace {c : Char} {r s : List Char} (h : isWhiteSpace c = true) :
    Skips r s → Skips (c :: r) s
  | line {r e s : List Char} : LineText r e → Skips e s → Skips ('/' :: '/' :: r) s
  | block {r e s : List Char} : BlockText r e → Skips e s → Skips ('/' :: '*' :: r) s

lemma Skips.trans {r s t : List Char} (h : Skips r s) (h' : Skips s t) : Skips r t := by
  induction h with
  | refl => exact h'
  | whitespace hc _ ih => exact .whitespace hc (ih h')
  | line htext _ ih => exact .line htext (ih h')
  | block htext _ ih => exact .block htext (ih h')

variable {flag : Bool} {char : Char} {r s rest : List Char} {k : Option Comment}

lemma skips_skipWhitespace (r : List Char) : Skips r (skipWhitespace r) := by
  induction r with
  | nil => exact .refl
  | cons c r ih =>
    rw [skipWhitespace, dropWhile_cons]
    split_ifs with h
    · exact .whitespace h ih
    · exact .refl

lemma lineText_skipSingleLineComment (r : List Char) : LineText r (skipSingleLineComment r) := by
  fun_induction skipSingleLineComment r with
  | case1 => exact .stop (.inl rfl)
  | case2 c r h => exact .stop (.inr h)
  | case3 c r h ih => exact .cons (Bool.eq_false_iff.mpr h) ih

lemma blockText_skipMultiLineComment (h : skipMultiLineComment r = some s) :
    BlockText r s.tail := by
  fun_induction skipMultiLineComment r with
  | case1 =>
    cases h
    exact .stop
  | case2 c r hc ih =>
    refine .cons ?_ (ih h)
    by_contra hcon
    obtain ⟨rfl, hr⟩ : c = '*' ∧ currentChar r = '/' := by simpa [not_or] using hcon
    cases r with
    | nil => cases h
    | cons d r =>
      cases hr
      exact hc r rfl rfl
  | case3 => cases h

/-- A documentation comment goes on with a line that is empty. -/
inductive JoinsEmptyLine : List Char → Prop
  | here {r next : List Char} {d : Char} (h : isUnicodeLinebreak (d :: next) = true)
    (hjoin : skipWhitespace ('\n' :: r) = '/' :: '/' :: '/' :: d :: next) :
    JoinsEmptyLine ('\n' :: r)
  | later {r next : List Char} {d : Char} (h : JoinsEmptyLine next)
    (hjoin : skipWhitespace ('\n' :: r) = '/' :: '/' :: '/' :: d :: next) :
    JoinsEmptyLine ('\n' :: r)
  | cons {r : List Char} {c : Char} (hc : isUnicodeLinebreak (c :: r) = false)
    (h : JoinsEmptyLine r) : JoinsEmptyLine (c :: r)

lemma skips_scanSingleLineDocComment (literal : List Char) (h : ¬ JoinsEmptyLine r) :
    ∃ e, LineText r e ∧ Skips e (scanSingleLineDocComment literal r).2 := by
  fun_induction scanSingleLineDocComment literal r with
  | case1 => exact ⟨_, .stop (.inl rfl), .refl⟩
  | case2 literal c r hc d next hjoin _ ih =>
    obtain rfl : c = '\n' := of_decide_eq_true hc
    have hd : isUnicodeLinebreak (d :: next) = false :=
      Bool.eq_false_iff.mpr fun hd => h (.here hd hjoin)
    obtain ⟨e, htext, hskips⟩ := ih fun hnext => h (.later hnext hjoin)
    have hwhite := skips_skipWhitespace ('\n' :: r)
    rw [hjoin] at hwhite
    exact ⟨_, .stop (.inr rfl), hwhite.trans (.line (.cons rfl (.cons hd htext)) hskips)⟩
  | case3 literal c r hc =>
    obtain rfl : c = '\n' := of_decide_eq_true hc
    exact ⟨_, .stop (.inr rfl), skips_skipWhitespace _⟩
  | case4 literal c r _ hbreak => exact ⟨_, .stop (.inr hbreak), .refl⟩
  | case5 literal c r _ hbreak ih =>
    have hbreak := Bool.eq_false_iff.mpr hbreak
    obtain ⟨e, htext, hskips⟩ := ih fun hr => h (.cons hbreak hr)
    exact ⟨e, .cons hbreak htext, hskips⟩

lemma blockText_dropWhile {p : Char → Bool} (hp : ∀ c, p c → isWhiteSpace c)
    (h : BlockText (r.dropWhile p) s) : BlockText r s := by
  induction r with
  | nil => exact h
  | cons c r ih =>
    rw [dropWhile_cons] at h
    split_ifs at h with hc
    · exact .cons (.inl fun hstar => by rw [hstar] at hc; cases hp _ hc) (ih h)
    · exact h

lemma blockText_beginLine (charsAdded : Bool) (h : BlockText (beginLine charsAdded r).2 s) :
    BlockText r s := by
  rw [beginLine] at h
  split at h
  · apply blockText_dropWhile fun _ => id
    rw [skipWhitespace] at h
    generalize r.dropWhile isWhiteSpace = r at h ⊢
    split at h
    · exact .cons (.inr (show '*' ≠ '/' by decide)) h
    · exact h
    · rename_i hstar hslash
      exact .cons (.inr hslash) (.cons (.inl hstar) h)
    · exact h
  · exact h

lemma blockText_scanMultiLineDocComment {charsAdded : Bool} {literal : List Char}
    (h : (scanMultiLineDocComment charsAdded literal r).2 = some s) : BlockText r s := by
  fun_induction scanMultiLineDocComment charsAdded literal r with
  | case1 => cases h
  | case2 charsAdded literal r _ _ next hnext =>
    cases h
    apply blockText_beginLine charsAdded
    rw [hnext]
    exact .stop
  | case3 charsAdded literal r _ _ c next hne hnext ih =>
    apply blockText_beginLine charsAdded
    rw [hnext]
    refine .cons ?_ (ih h)
    by_contra hcon
    obtain ⟨rfl, hd⟩ : c = '*' ∧ currentChar next = '/' := by simpa [not_or] using hcon
    cases next with
    | nil => cases hd
    | cons d next =>
      cases hd
      exact hne next rfl rfl
  | case4 => cases h

/-! ### Rounds -/

/-- What is left behind the current character if that is whitespace. -/
def remaining (char : Char) (rest : List Char) : List Char :=
  if isWhiteSpace char then rest.tail else rest

lemma skips_remaining (r : List Char) : Skips r (remaining (currentChar r) r) := by
  rw [remaining]
  split_ifs with h
  · cases r with
    | nil => exact .refl
    | cons c r => exact .whitespace h .refl
  · exact .refl

/-- A documentation comment begins that swallows a line. -/
def Swallows (char : Char) (rest : List Char) : Prop :=
  isWhiteSpace char = false ∧ ∃ r, rest = '/' :: '/' :: '/' :: r ∧
    JoinsEmptyLine (skipWhitespaceExceptUnicodeLinebreak r)

lemma lineText_of_skipWhitespace (h : LineText (skipWhitespaceExceptUnicodeLinebreak r) s) :
    LineText r s := by
  induction r with
  | nil => exact h
  | cons c r ih =>
    rw [skipWhitespaceExceptUnicodeLinebreak, dropWhile_cons] at h
    split_ifs at h with hc
    · refine .cons ?_ (ih h)
      obtain rfl | rfl : c = ' ' ∨ c = '\t' := by
        simp only [isWhiteSpace, Bool.and_eq_true, Bool.or_eq_true, decide_eq_true_eq] at hc
        obtain ⟨((rfl | rfl) | rfl) | rfl, hbreak⟩ := hc
        · exact .inl rfl
        · cases hbreak
        · exact .inr rfl
        · cases hbreak
      · rfl
      · rfl
    · exact h

lemma scanSlash_skips {char' : Char} {rest' : List Char}
    (hs : ∀ r, rest = '/' :: '/' :: r → ¬ JoinsEmptyLine (skipWhitespaceExceptUnicodeLinebreak r))
    (h : scanSlash rest = .whitespace char' rest' k) :
    Skips ('/' :: rest) (remaining char' rest') := by
  have hskip : ∀ {s k'}, skip s k' = .whitespace char' rest' k → Skips ('/' :: rest) s →
      Skips ('/' :: rest) (remaining char' rest') := by
    rintro s k' ⟨⟩ h
    exact h.trans (skips_remaining _)
  rw [scanSlash.eq_def] at h
  split at h
  · obtain ⟨e, htext, hskips⟩ := skips_scanSingleLineDocComment [] (hs _ rfl)
    exact hskip h (.line (.cons rfl (lineText_of_skipWhitespace htext)) hskips)
  · exact hskip h (.line (lineText_skipSingleLineComment _) .refl)
  · exact hskip h (.block .stop .refl)
  · rename_i r hslash
    have hslash' : currentChar r ≠ '/' := by
      rintro hr
      cases r with
      | nil => cases hr
      | cons c r =>
        cases hr
        exact hslash r rfl
    dsimp only at h
    split at h
    · rename_i hterminated
      have htext := blockText_dropWhile (fun c hc => (Bool.and_eq_true_iff.mp hc).1)
        (blockText_scanMultiLineDocComment hterminated)
      exact hskip h (.block (.cons (.inr hslash') htext) .refl)
    · cases h
  · rename_i r hstar hslash
    split at h
    · rename_i hterminated
      cases h
      cases r with
      | nil => cases hterminated
      | cons c r =>
        refine .block (.cons (.inl ?_) (blockText_skipMultiLineComment hterminated)) .refl
        rintro rfl
        exact hslash r rfl
    · cases h
  · cases h
  · cases h

lemma round_skips {char' : Char} {rest' : List Char} (hs : ¬ Swallows char rest)
    (h : round flag char rest = .whitespace char' rest' k) :
    Skips (remaining char rest) (remaining char' rest') := by
  cases rest with
  | nil => cases h
  | cons c rest =>
    rw [round] at h
    split_ifs at h with hwhite hslash
    · cases h
      rw [remaining, if_pos hwhite]
      exact (skips_skipWhitespace rest).trans (skips_remaining _)
    · subst hslash
      rw [remaining, if_neg hwhite]
      refine scanSlash_skips (fun r hr hjoins => hs ⟨by simpa using hwhite, r, ?_, hjoins⟩) h
      rw [hr]

/-- The positions at which rounds begin. -/
inductive Visited (source : List Char) : Char → List Char → Prop
  | reset : Visited source (currentChar (skipWhitespace source)) (skipWhitespace source)
  | whitespace {char char' : Char} {rest rest' : List Char} {k : Option Comment} :
    Visited source char rest → round false char rest = .whitespace char' rest' k →
    Visited source char' rest'
  | token {char : Char} {rest : List Char} {x : Scan} {k : Option Comment} :
    Visited source char rest → round false char rest = .token x k →
    Visited source (currentChar x.rest) x.rest

variable {source : List Char}

lemma scanLoop_skips (hs : ∀ char rest, Visited source char rest → ¬ Swallows char rest)
    (h : Visited source char rest) :
    Skips (remaining char rest) (scanLoop false char rest).1.start ∧
      Visited source (currentChar (scanLoop false char rest).1.rest)
        (scanLoop false char rest).1.rest := by
  fun_induction scanLoop false char rest with
  | case1 char rest x k hround =>
    refine ⟨?_, h.token hround⟩
    rw [remaining]
    split_ifs with hwhite
    · cases rest with
      | nil => exact .refl
      | cons c rest =>
        rw [round, if_pos hwhite] at hround
        cases hround
    · exact .refl
  | case2 char rest char' rest' k hround p ih =>
    obtain ⟨hskips, hvisited⟩ := ih (h.whitespace hround)
    exact ⟨(round_skips (hs _ _ h) hround).trans hskips, hvisited⟩

lemma scanLoop_suffix (flag : Bool) (char : Char) (rest : List Char) :
    (scanLoop flag char rest).1.start <:+ rest ∧
      (scanLoop flag char rest).1.rest <:+ (scanLoop flag char rest).1.start ∧
      ((scanLoop flag char rest).1.token = .eos ∨
        (scanLoop flag char rest).1.rest.length < rest.length) := by
  fun_induction scanLoop flag char rest with
  | case1 char rest x k hround =>
    cases rest with
    | nil =>
      cases hround
      exact ⟨suffix_rfl, suffix_rfl, .inl rfl⟩
    | cons c rest =>
      have hsuffix := round_suffix flag char c rest
      rw [hround] at hsuffix
      exact ⟨suffix_rfl, hsuffix.trans (suffix_cons _ _),
        .inr (Nat.lt_succ_of_le hsuffix.length_le)⟩
  | case2 char rest char' rest' k hround p ih =>
    cases rest with
    | nil => cases hround
    | cons c rest =>
      obtain ⟨hstart, hstop, hend⟩ := ih
      have hsuffix := round_suffix flag char c rest
      rw [hround] at hsuffix
      refine ⟨hstart.trans (hsuffix.trans (suffix_cons _ _)), hstop, hend.imp_right ?_⟩
      exact fun hlt => hlt.trans_le (hsuffix.length_le.trans (Nat.le_succ _))

/-! ### Runs -/

/-- Tokens follow each other, and the next one was scanned last. -/
structure Ordered (s : Scanner) : Prop where
  token : s.currentToken.rest <:+ s.currentToken.start
  gap : s.nextToken.start <:+ s.currentToken.rest
  nextToken : s.nextToken.rest <:+ s.nextToken.start
  rest : s.rest = s.nextToken.rest

lemma Ordered.next {s : Scanner} (h : Ordered s) : Ordered s.next := by
  obtain ⟨hstart, hstop, -⟩ :=
    scanLoop_suffix s.supportPeriodInIdentifier (currentChar s.rest) s.rest
  exact ⟨h.nextToken, h.rest ▸ hstart, hstop, rfl⟩

lemma exists_eos (s : Scanner) : ∃ n, (next^[n] s).currentToken.token = .eos := by
  rcases (scanLoop_suffix s.supportPeriodInIdentifier (currentChar s.rest) s.rest).2.2 with
    heos | hlt
  · exact ⟨2, heos⟩
  · obtain ⟨n, hn⟩ := exists_eos s.next
    exact ⟨n + 1, hn⟩
termination_by s.rest.length

/-- The gaps so far are transparent. -/
structure Transparent (source : List Char) (s : Scanner) : Prop where
  flag : s.supportPeriodInIdentifier = false
  gap : Skips s.currentToken.rest s.nextToken.start
  rest : s.rest = s.nextToken.rest
  visited : Visited source (currentChar s.rest) s.rest

lemma Transparent.next {s : Scanner}
    (hs : ∀ char rest, Visited source char rest → ¬ Swallows char rest)
    (h : Transparent source s) : Transparent source s.next := by
  obtain ⟨hflag, -, hrest, hvisited⟩ := h
  obtain ⟨hskips, hnext⟩ := scanLoop_skips hs hvisited
  have hloop : s.next.nextToken = (scanLoop false (currentChar s.rest) s.rest).1 := by
    rw [← hflag]
    rfl
  refine ⟨hflag, ?_, rfl, ?_⟩
  · rw [hloop]
    exact hrest ▸ (skips_remaining s.rest).trans hskips
  · change Visited source (currentChar s.next.nextToken.rest) s.next.nextToken.rest
    rw [hloop]
    exact hnext

end Scanner

end Langutil
