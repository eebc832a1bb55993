import Polc.Langutil.Scanner.Tokens

/-!
# Rescanning

Scanning again from the current token, or from the comment in front of it, gives the same tokens
and comments. Only where an empty comment is said to be depends on what was scanned before.
-/

namespace Langutil

open Option

namespace Scanner

variable {flag : Bool} {char : Char} {rest : List Char} {k : Option Comment}

/-! ### Rounds -/

lemma scanLoop_of_token {x : Scan} (h : round flag char rest = .token x k) :
    scanLoop flag char rest = (⟨x, rest⟩, k) := by
  rw [scanLoop]
  split <;> simp_all

lemma scanLoop_of_whitespace {char' : Char} {rest' : List Char}
    (h : round flag char rest = .whitespace char' rest' k) :
    scanLoop flag char rest =
      ((scanLoop flag char' rest').1, (scanLoop flag char' rest').2.or k) := by
  rw [scanLoop]
  split <;> simp_all

/-- Where tokens begin and which comments are recorded does not depend on the flag. -/
lemma round_flag (flag flag' : Bool) (char : Char) (rest : List Char) :
    (∃ x x' k, round flag char rest = .token x k ∧ round flag' char rest = .token x' k) ∨
      ∃ char' rest' k, round flag char rest = .whitespace char' rest' k ∧
        round flag' char rest = .whitespace char' rest' k := by
  cases rest with
  | nil => exact .inl ⟨_, _, _, rfl, rfl⟩
  | cons c rest =>
    rw [round, round]
    split_ifs
    · exact .inr ⟨_, _, _, rfl, rfl⟩
    · cases scanSlash rest with
      | token x k => exact .inl ⟨_, _, _, rfl, rfl⟩
      | whitespace char' rest' k => exact .inr ⟨_, _, _, rfl, rfl⟩
    · exact .inl ⟨_, _, _, rfl, rfl⟩

lemma scanLoop_flag (flag flag' : Bool) (char : Char) (rest : List Char) :
    ((scanLoop flag' char rest).1.start, (scanLoop flag' char rest).2) =
      ((scanLoop flag char rest).1.start, (scanLoop flag char rest).2) := by
  fun_induction scanLoop flag char rest with
  | case1 char rest x k h =>
    obtain ⟨_, _, _, h₁, h₂⟩ | ⟨_, _, _, h₁, h₂⟩ := round_flag flag flag' char rest
    · cases h.symm.trans h₁
      rw [scanLoop_of_token h₂]
    · cases h.symm.trans h₁
  | case2 char rest char' rest' k h r ih =>
    obtain ⟨_, _, _, h₁, h₂⟩ | ⟨_, _, _, h₁, h₂⟩ := round_flag flag flag' char rest
    · cases h.symm.trans h₁
    · cases h.symm.trans h₁
      obtain ⟨hstart, hcomment⟩ := Prod.mk.inj ih
      rw [scanLoop_of_whitespace h₂, hcomment]
      exact congrArg (·, _) hstart

/-- The current character, between two rounds. -/
def IsCurrent (char : Char) (rest : List Char) : Prop := char = currentChar rest ∨ char = ' '

/-- A round that only skips whitespace records nothing. The others begin at the first character
of the source. -/
lemma round_isCurrent (h : IsCurrent char rest) :
    round flag char rest = round flag (currentChar rest) rest ∨
      ∃ rest', round flag char rest = skip rest' none := by
  cases rest with
  | nil => exact .inl rfl
  | cons c rest =>
    rcases h with rfl | rfl
    · exact .inl rfl
    · exact .inr ⟨_, rfl⟩

def Round.comment : Round → Option Comment
  | .token _ k | .whitespace _ _ k => k

lemma scanSlash_comment {c : Comment} (h : (scanSlash rest).comment = some c) :
    c.start = '/' :: rest := by
  rw [scanSlash.eq_def] at h
  split at h <;> (try dsimp only at h) <;> (try split at h) <;> cases h <;> rfl

lemma round_comment_start {c : Comment} (h : (round flag char rest).comment = some c) :
    c.start = rest := by
  cases rest with
  | nil => cases h
  | cons d rest =>
    rw [round] at h
    split_ifs at h with hwhite hslash
    · cases h
    · rw [hslash]
      exact scanSlash_comment h
    · cases h

lemma scanSlash_isCurrent {char' : Char} {rest' : List Char}
    (h : scanSlash rest = .whitespace char' rest' k) : IsCurrent char' rest' := by
  rw [scanSlash.eq_def] at h
  split at h <;> (try dsimp only at h) <;> (try split at h) <;> cases h <;>
    first | exact .inl rfl | exact .inr rfl

lemma round_whitespace_isCurrent {char' : Char} {rest' : List Char}
    (h : round flag char rest = .whitespace char' rest' k) : IsCurrent char' rest' := by
  cases rest with
  | nil => cases h
  | cons c rest =>
    rw [round] at h
    split_ifs at h
    · cases h
      exact .inl rfl
    · exact scanSlash_isCurrent h

/-- A comment with a literal. Where an empty comment is said to be is of no interest. -/
def Comment.visible (c : Comment) : Option Comment := if c.literal = [] then none else some c

lemma visible_eq_some {c c' : Comment} (h : c.visible = some c') : c = c' := by
  rw [Comment.visible] at h
  split_ifs at h
  exact Option.some.inj h

def rollbackTo (t : TokenDesc) (c : Option Comment) : List Char := c.elim t.start Comment.start

/-- Scanning from `r` again finds the same comment, and the same token or another one at the same
place if the flag is another one. -/
structure Repeats (flag flag' : Bool) (p : TokenDesc × Option Comment) (r : List Char) : Prop where
  start : (scanLoop flag' (currentChar r) r).1.start = p.1.start
  comment : (scanLoop flag' (currentChar r) r).2.bind Comment.visible = p.2.bind Comment.visible
  token : flag' = flag → (scanLoop flag' (currentChar r) r).1 = p.1

lemma repeats_of_round (flag' : Bool)
    (h : round flag char rest = round flag (currentChar rest) rest) :
    Repeats flag flag' (scanLoop flag char rest) rest := by
  have heq : scanLoop flag char rest = scanLoop flag (currentChar rest) rest := by
    cases hround : round flag char rest with
    | token x k => rw [scanLoop_of_token hround, scanLoop_of_token (h.symm.trans hround)]
    | whitespace char' rest' k =>
      rw [scanLoop_of_whitespace hround, scanLoop_of_whitespace (h.symm.trans hround)]
  obtain ⟨hstart, hcomment⟩ := Prod.mk.inj (scanLoop_flag flag flag' (currentChar rest) rest)
  rw [heq]
  exact ⟨hstart, by rw [hcomment], fun h => by rw [h]⟩

lemma scanLoop_rollbackTo (flag flag' : Bool) (char : Char) (rest : List Char)
    (hchar : IsCurrent char rest) :
    Repeats flag flag' (scanLoop flag char rest)
      (rollbackTo (scanLoop flag char rest).1
        ((scanLoop flag char rest).2.bind Comment.visible)) := by
  fun_induction scanLoop flag char rest with
  | case1 char rest x k h =>
    have hself : Repeats flag flag' (⟨x, rest⟩, k) rest := by
      rw [← scanLoop_of_token h]
      refine repeats_of_round flag' ((round_isCurrent hchar).resolve_right ?_)
      rintro ⟨rest', h'⟩
      cases h.symm.trans h'
    cases hk : k.bind Comment.visible with
    | none => exact hself
    | some c =>
      obtain ⟨c', rfl, hc⟩ := bind_eq_some_iff.mp hk
      rw [rollbackTo, elim_some, ← visible_eq_some hc,
        round_comment_start (congrArg Round.comment h)]
      exact hself
  | case2 char rest char' rest' k h r ih =>
    replace ih := ih (round_whitespace_isCurrent h)
    by_cases hsame : (r.2.or k).bind Comment.visible = r.2.bind Comment.visible
    · exact hsame ▸ ⟨ih.start, ih.comment.trans hsame.symm, ih.token⟩
    · -- No comment was recorded later: this round recorded the one that is seen.
      have hr : r.2 = none := by
        cases hr : r.2 with
        | none => rfl
        | some c => exact absurd (by rw [hr]; rfl) hsame
      rw [hr, none_or, bind_none] at hsame
      obtain ⟨c, hc⟩ := ne_none_iff_exists'.mp hsame
      obtain ⟨c', rfl, hc'⟩ := bind_eq_some_iff.mp hc
      have hself : Repeats flag flag' (r.1, r.2.or (some c')) rest := by
        rw [← scanLoop_of_whitespace h]
        refine repeats_of_round flag' ((round_isCurrent hchar).resolve_right ?_)
        rintro ⟨rest', h'⟩
        cases h.symm.trans h'
      rw [hr, none_or, hc, rollbackTo, elim_some, ← visible_eq_some hc',
        round_comment_start (congrArg Round.comment h)]
      rwa [hr] at hself

/-! ### States of the scanner -/

/-- The current token and the next one were scanned one after the other. -/
structure Coherent (s : Scanner) : Prop where
  current : ∃ r, (scanLoop s.supportPeriodInIdentifier (currentChar r) r).1 = s.currentToken ∧
    (scanLoop s.supportPeriodInIdentifier (currentChar r) r).2.bind Comment.visible =
      s.skippedComment.visible
  nextToken : (scanLoop s.supportPeriodInIdentifier (currentChar s.currentToken.rest)
    s.currentToken.rest).1 = s.nextToken
  nextSkippedComment : (scanLoop s.supportPeriodInIdentifier (currentChar s.currentToken.rest)
    s.currentToken.rest).2.bind Comment.visible = s.nextSkippedComment.visible
  rest : s.rest = s.nextToken.rest

/-- The same tokens and the same comments with a literal. -/
structure Agrees (s s' : Scanner) : Prop where
  supportPeriodInIdentifier : s'.supportPeriodInIdentifier = s.supportPeriodInIdentifier
  currentToken : s'.currentToken = s.currentToken
  nextToken : s'.nextToken = s.nextToken
  rest : s'.rest = s.rest
  skippedComment : s'.skippedComment.visible = s.skippedComment.visible
  nextSkippedComment : s'.nextSkippedComment.visible = s.nextSkippedComment.visible

variable {s s' : Scanner}

lemma visible_getD (k : Option Comment) (c : Comment) :
    (k.getD { c with literal := [] }).visible = k.bind Comment.visible := by
  cases k <;> rfl

lemma Agrees.next (h : Agrees s s') : Agrees s.next s'.next := by
  obtain ⟨hflag, hcurrent, hnext, hrest, hskipped, hnextSkipped⟩ := h
  have hloop : scanLoop s'.supportPeriodInIdentifier (currentChar s'.rest) s'.rest =
      scanLoop s.supportPeriodInIdentifier (currentChar s.rest) s.rest := by rw [hflag, hrest]
  exact ⟨hflag, hnext, congrArg Prod.fst hloop, congrArg (·.1.rest) hloop, hnextSkipped, by
    rw [Scanner.next, Scanner.next, scanToken, scanToken, visible_getD, visible_getD]
    exact congrArg (·.2.bind Comment.visible) hloop⟩

lemma Coherent.of_next_next (s : Scanner) : Coherent s.next.next :=
  ⟨⟨s.rest, rfl, (visible_getD _ _).symm⟩, rfl, (visible_getD _ _).symm, rfl⟩

lemma Coherent.next (h : Coherent s) : Coherent s.next := by
  obtain ⟨-, hnext, hcomment, hrest⟩ := h
  refine ⟨⟨s.currentToken.rest, hnext, hcomment⟩, ?_, ?_, rfl⟩
  · rw [Scanner.next, scanToken]
    exact hrest ▸ rfl
  · rw [Scanner.next, scanToken, visible_getD]
    exact hrest ▸ rfl

lemma rescan_eq (s : Scanner) :
    s.rescan = { s with rest := rollbackTo s.currentToken s.skippedComment.visible }.next.next := by
  rw [rescan, Comment.visible, rollbackTo]
  split_ifs <;> rfl

lemma Coherent.agrees (h : Coherent s)
    (hflag : s'.supportPeriodInIdentifier = s.supportPeriodInIdentifier)
    (hrest : s'.rest = rollbackTo s.currentToken s.skippedComment.visible) :
    Agrees s s'.next.next := by
  obtain ⟨⟨r, htoken, hcomment⟩, hnext, hnextComment, heq⟩ := h
  have hrepeats := scanLoop_rollbackTo s.supportPeriodInIdentifier s.supportPeriodInIdentifier
    _ r (.inl rfl)
  rw [htoken, hcomment, ← hrest] at hrepeats
  obtain ⟨flag, skipped, nextSkipped, current, next, rest⟩ := s'
  obtain rfl : flag = s.supportPeriodInIdentifier := hflag
  have hcurrent := (hrepeats.token rfl).trans htoken
  refine ⟨rfl, hcurrent, ?_, ?_, ?_, ?_⟩
  · rw [← hnext, ← hcurrent]
    rfl
  · rw [heq, ← hnext, ← hcurrent]
    rfl
  · exact (visible_getD _ _).trans (hrepeats.comment.trans hcomment)
  · rw [← hnextComment, ← hcurrent]
    exact visible_getD _ _

/-- The current token stays where it is when the flag is switched, and so does the comment. -/
lemma Coherent.setSupportPeriodInIdentifier (h : Coherent s) (value : Bool) :
    (s.setSupportPeriodInIdentifier value).currentToken.start = s.currentToken.start ∧
      (s.setSupportPeriodInIdentifier value).skippedComment.visible = s.skippedComment.visible := by
  obtain ⟨⟨r, htoken, hcomment⟩, -, -, -⟩ := h
  have hrepeats := scanLoop_rollbackTo s.supportPeriodInIdentifier value _ r (.inl rfl)
  rw [htoken, hcomment] at hrepeats
  rw [Scanner.setSupportPeriodInIdentifier, rescan_eq]
  exact ⟨hrepeats.start.trans (congrArg _ htoken),
    (visible_getD _ _).trans (hrepeats.comment.trans hcomment)⟩

/-- The states after a reset. -/
inductive Reachable (source : List Char) : Scanner → Prop
  | reset (s : Scanner) : Reachable source (s.reset source)
  | next {s : Scanner} : Reachable source s → Reachable source s.next
  | setSupportPeriodInIdentifier {s : Scanner} (value : Bool) :
    Reachable source s → Reachable source (s.setSupportPeriodInIdentifier value)

lemma Reachable.coherent {source : List Char} (h : Reachable source s) : Coherent s := by
  induction h with
  | reset => exact .of_next_next _
  | next _ ih => exact ih.next
  | setSupportPeriodInIdentifier value _ _ =>
    rw [Scanner.setSupportPeriodInIdentifier, rescan_eq]
    exact .of_next_next _

/-- Rescanning restores the tokens and the comments that have a literal, also after the flag was
switched, and so all later ones. -/
theorem rescan_restores (source : List Char) (s : Scanner) (h : Reachable source s) (n : ℕ) :
    Agrees (next^[n] s) (next^[n] s.rescan) ∧ ∀ value, Agrees (next^[n] s) (next^[n]
      ((s.setSupportPeriodInIdentifier value).setSupportPeriodInIdentifier
        s.supportPeriodInIdentifier)) := by
  have hnext : ∀ {s s' : Scanner}, Agrees s s' → Agrees (next^[n] s) (next^[n] s') := by
    intro s s' h
    induction n with
    | zero => exact h
    | succ n ih =>
      rw [Function.iterate_succ_apply', Function.iterate_succ_apply']
      exact ih.next
  refine ⟨hnext ?_, fun value => hnext ?_⟩
  · rw [rescan_eq]
    exact h.coherent.agrees rfl rfl
  · obtain ⟨hstart, hcomment⟩ := h.coherent.setSupportPeriodInIdentifier value
    rw [Scanner.setSupportPeriodInIdentifier, rescan_eq]
    refine h.coherent.agrees rfl ?_
    rw [← hcomment, rollbackTo, rollbackTo, ← hstart]

/-- Two words. -/
theorem rescan_restores_words :
    Agrees (fresh.reset "a b".toList) (fresh.reset "a b".toList).rescan :=
  (rescan_restores "a b".toList _ (.reset fresh) 0).1

/-- An empty comment is said to be where the last one was scanned. -/
theorem rescan_moves_emptyComment :
    ∃ s, Reachable "a /// c\n b".toList s ∧ s.rescan.skippedComment ≠ s.skippedComment :=
  ⟨_, .reset fresh, by decide +kernel⟩

end Scanner

end Langutil
