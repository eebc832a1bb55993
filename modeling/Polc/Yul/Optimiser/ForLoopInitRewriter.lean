import Polc.Yul.Optimiser.DissolvedScopes
import Polc.Yul.Optimiser.Prerequisites

/-!
# The for-loop init rewriter

`libyul/optimiser/ForLoopInitRewriter.cpp`: the init part of a loop is moved in front of it.
-/

namespace Yul

open Sof Semantics

namespace ForLoopInitRewriter

mutual

/-- What replaces a statement of a block. -/
def rewriteStatement : Statement → List Statement
  | .forLoop pre c post body => rewrite pre ++ [.forLoop [] c (rewrite post) (rewrite body)]
  | .functionDefinition f ps rs body => [.functionDefinition f ps rs (rewrite body)]
  | .if c body => [.if c (rewrite body)]
  | .switch e cases => [.switch e (rewriteCases cases)]
  | .block ss => [.block (rewrite ss)]
  | s => [s]

def rewrite : List Statement → List Statement
  | [] => []
  | s :: ss => rewriteStatement s ++ rewrite ss

def rewriteCases : List Case → List Case
  | [] => []
  | .mk value body :: cs => .mk value (rewrite body) :: rewriteCases cs

end

/-- Run the step on a program. -/
def run (ss : Block) : Block := rewrite ss

mutual

lemma rewriteStatement_eq (s : Statement) : rewriteStatement s = s.dissolve ⟨false, true⟩ := by
  match s with
  | .expressionStatement _ | .assignment _ _ | .variableDeclaration _ _ | .break | .continue => rfl
  | .functionDefinition f ps rs body =>
    rw [rewriteStatement, Statement.dissolve, rewrite_eq body]
  | .if c body => rw [rewriteStatement, Statement.dissolve, rewrite_eq body]
  | .switch e cases => rw [rewriteStatement, Statement.dissolve, rewriteCases_eq cases]
  | .forLoop pre c post body =>
    rw [rewriteStatement, Statement.dissolve, if_pos rfl, rewrite_eq pre, rewrite_eq post,
      rewrite_eq body]
  | .block ss => rw [rewriteStatement, Statement.dissolve, if_neg nofun, rewrite_eq ss]

lemma rewrite_eq (ss : List Statement) : rewrite ss = dissolveStatements ⟨false, true⟩ ss := by
  match ss with
  | [] => rfl
  | s :: ss => rw [rewrite, dissolveStatements, rewriteStatement_eq s, rewrite_eq ss]

lemma rewriteCases_eq (cs : List Case) : rewriteCases cs = dissolveCases ⟨false, true⟩ cs := by
  match cs with
  | [] => rfl
  | .mk value body :: cs => rw [rewriteCases, dissolveCases, rewrite_eq body, rewriteCases_eq cs]

end

lemma everyStatement_append {p : Statement → Bool} {ss ts : List Statement} :
    everyStatement p (ss ++ ts) = (everyStatement p ss && everyStatement p ts) := by
  induction ss with
  | nil => rfl
  | cons s ss ih => rw [List.cons_append, everyStatement, everyStatement, ih, Bool.and_assoc]

mutual

lemma initEmpty_rewriteStatement (s : Statement) :
    everyStatement Statement.initEmpty (rewriteStatement s) := by
  match s with
  | .expressionStatement _ | .assignment _ _ | .variableDeclaration _ _ | .break | .continue => rfl
  | .functionDefinition f ps rs body =>
    rw [rewriteStatement, everyStatement, Statement.every, initEmpty_rewrite body]
    rfl
  | .if c body =>
    rw [rewriteStatement, everyStatement, Statement.every, initEmpty_rewrite body]
    rfl
  | .switch e cases =>
    rw [rewriteStatement, everyStatement, Statement.every, initEmpty_rewriteCases cases]
    rfl
  | .forLoop pre c post body =>
    rw [rewriteStatement, everyStatement_append, initEmpty_rewrite pre, everyStatement,
      Statement.every, initEmpty_rewrite post, initEmpty_rewrite body]
    rfl
  | .block ss =>
    rw [rewriteStatement, everyStatement, Statement.every, initEmpty_rewrite ss]
    rfl

lemma initEmpty_rewrite (ss : List Statement) :
    everyStatement Statement.initEmpty (rewrite ss) := by
  match ss with
  | [] => rfl
  | s :: ss =>
    rw [rewrite, everyStatement_append, initEmpty_rewriteStatement s, initEmpty_rewrite ss]
    rfl

lemma initEmpty_rewriteCases (cs : List Case) :
    everyCase Statement.initEmpty (rewriteCases cs) := by
  match cs with
  | [] => rfl
  | .mk value body :: cs =>
    rw [rewriteCases, everyCase, initEmpty_rewrite body, initEmpty_rewriteCases cs]
    rfl

end

end ForLoopInitRewriter

end Yul
