import Polc.Yul.Optimiser.Prerequisites

/-!
# Passes that rewrite the statements of every block

A pass that applies one function to the statements of every block, inner blocks first, keeps the
meaning of programs if that function does.
-/

namespace Yul

open Sof Semantics
open Bool (and_eq_true)

section

variable (dialect : Dialect) (f : Block → Block)

mutual

/-- Rewrite all blocks in a statement. -/
def Statement.mapBlocks : Statement → Statement
  | .functionDefinition g ps rs body => .functionDefinition g ps rs (f (mapBlocksOfStatements body))
  | .if c body => .if c (f (mapBlocksOfStatements body))
  | .switch e cases => .switch e (mapBlocksOfCases cases)
  | .forLoop pre c post body =>
    .forLoop (f (mapBlocksOfStatements pre)) c (f (mapBlocksOfStatements post))
      (f (mapBlocksOfStatements body))
  | .block ss => .block (f (mapBlocksOfStatements ss))
  | s => s

def mapBlocksOfStatements : List Statement → List Statement
  | [] => []
  | s :: ss => s.mapBlocks :: mapBlocksOfStatements ss

def mapBlocksOfCases : List Case → List Case
  | [] => []
  | .mk value body :: cs => .mk value (f (mapBlocksOfStatements body)) :: mapBlocksOfCases cs

end

/-- Rewrite all blocks in a block, and the block itself. -/
def Block.mapBlocks (ss : Block) : Block := f (mapBlocksOfStatements f ss)

/-- The function keeps what the statements of a block do and the functions that they define. -/
structure KeepsStatements : Prop where
  exec : ∀ {World : Type} (I : Interpreter World), I.dialect = dialect → ∀ (F : Functions)
    (V : Variables) (ss : Block) (m : SvmState World),
      execStatements I F V (f ss) m = execStatements I F V ss m
  definitions : ∀ ss, functionDefinitions (f ss) = functionDefinitions ss

/-- The second function is what the pass makes of the first one. -/
structure FunctionDefinition.BlocksMapped (d d' : FunctionDefinition) : Prop where
  parameters : d'.parameters = d.parameters
  returnVariables : d'.returnVariables = d.returnVariables
  body : d'.body = Block.mapBlocks f d.body

end

section

variable {dialect : Dialect} {f : Block → Block} {World : Type} {I I' : Interpreter World}
  {p q : Prop}

lemma Statement.mapBlocks_forLoop (pre post body : Block) (c : Expression) :
    (Statement.forLoop pre c post body).mapBlocks f =
      .forLoop (Block.mapBlocks f pre) c (Block.mapBlocks f post) (Block.mapBlocks f body) := rfl

lemma mapBlocksOfCases_cons (value : Option Literal) (body : Block) (cs : List Case) :
    mapBlocksOfCases f (.mk value body :: cs) =
      .mk value (Block.mapBlocks f body) :: mapBlocksOfCases f cs := rfl

lemma declares_mapBlocks (f : Block → Block) (s : Statement) :
    (s.mapBlocks f).declares = s.declares := by
  cases s <;> rfl

lemma flatMap_declares_mapBlocks (f : Block → Block) (ss : List Statement) :
    (mapBlocksOfStatements f ss).flatMap (·.declares) = ss.flatMap (·.declares) := by
  induction ss with
  | nil => rfl
  | cons s ss ih =>
    rw [mapBlocksOfStatements, List.flatMap_cons, List.flatMap_cons, ih, declares_mapBlocks]

lemma definesRelated_mapBlocksOfStatements (ss : List Statement) :
    DefinesRelated (FunctionDefinition.BlocksMapped f) ss (mapBlocksOfStatements f ss) := by
  induction ss with
  | nil => exact .nil
  | cons s ss ih =>
    have hs : DefinesRelated (FunctionDefinition.BlocksMapped f) [s] [s.mapBlocks f] := by
      cases s with
      | functionDefinition g ps rs body => exact List.Forall₂.cons ⟨rfl, rfl, rfl, rfl⟩ .nil
      | _ => exact .nil
    exact hs.cons ih

lemma definesRelated_mapBlocks (hf : KeepsStatements dialect f) (ss : Block) :
    DefinesRelated (FunctionDefinition.BlocksMapped f) ss (Block.mapBlocks f ss) := by
  rw [DefinesRelated, Block.mapBlocks, hf.definitions]
  exact definesRelated_mapBlocksOfStatements ss

lemma visibleFunctions_mapBlocks (hf : KeepsStatements dialect f) (ss : Block) :
    visibleFunctions (Block.mapBlocks f ss) = visibleFunctions ss := by
  refine visibleFunctions_eq_of_definesRelated ?_ (definesRelated_mapBlocks hf ss)
  rintro d d' ⟨hparameters, hreturns, -⟩
  rw [hparameters, hreturns]
  exact ⟨rfl, rfl⟩

lemma execBlock_mapBlocks_of (hf : KeepsStatements dialect f) (hd : I'.dialect = dialect) {ss : Block} {F F' : Functions}
    (hF : F.Rel (FunctionDefinition.BlocksMapped f) F')
    (hss : ∀ {F F' : Functions}, F.Rel (FunctionDefinition.BlocksMapped f) F' → ∀ V m,
      Result.Sim p q Eq (Outcome fun _ => Eq) (execStatements I F V ss m)
        (execStatements I' F' V (mapBlocksOfStatements f ss) m)) (V : Variables)
    (m : SvmState World) :
    Result.Sim p q Eq (Outcome fun _ => Eq) (execBlock I F V ss m)
      (execBlock I' F' V (Block.mapBlocks f ss) m) := by
  refine execBlock_sim hF (definesRelated_mapBlocks hf ss) (fun hF => ?_)
    fun _ _ _ hW => congrArg V.restrict hW
  rw [Block.mapBlocks, hf.exec I' hd]
  exact hss hF V m

mutual

lemma exec_mapBlocks (hf : KeepsStatements dialect f) (hd : I'.dialect = dialect)
    (hI : I.Sim p q (FunctionDefinition.BlocksMapped f) I') (s : Statement) {F F' : Functions}
    (hF : F.Rel (FunctionDefinition.BlocksMapped f) F') (V : Variables) (m : SvmState World) :
    Result.Sim p q Eq (Outcome fun _ => Eq) (s.exec I F V m) ((s.mapBlocks f).exec I' F' V m) := by
  match s with
  | .expressionStatement e =>
    exact (e.eval_sim hI hF (fun _ _ => rfl) m).map fun _ _ _ => ⟨rfl, rfl⟩
  | .assignment xs e =>
    refine (e.eval_sim hI hF (fun _ _ => rfl) m).map ?_
    rintro vs _ rfl
    exact ⟨rfl, rfl⟩
  | .variableDeclaration xs value =>
    refine (evaluateMulti_sim hI hF value (fun _ _ _ _ => rfl) m).map ?_
    rintro vs _ rfl
    exact ⟨rfl, rfl⟩
  | .functionDefinition g ps rs body => exact .ok ⟨rfl, rfl⟩ rfl
  | .if c body =>
    exact exec_if_sim (c.evaluate_sim hI hF (fun _ _ => rfl) m)
      (execBlock_mapBlocks_of hf hd hF (execStatements_mapBlocks hf hd hI body) V) rfl
  | .switch e cases =>
    exact exec_switch_sim (e.evaluate_sim hI hF (fun _ _ => rfl) m)
      (execCases_mapBlocks hf hd hI cases hF V)
  | .forLoop pre c post body =>
    rw [Statement.mapBlocks, exec_forLoop, exec_forLoop]
    apply closeScope_sim (A := fun _ => Eq)
    · have hpre := execStatements_mapBlocks hf hd hI pre hF V m
      rw [← hf.exec I' hd F' V (mapBlocksOfStatements f pre) m] at hpre
      refine hpre.bind ?_
      rintro ⟨l, W⟩ ⟨_, W'⟩ m₁ _ - - ⟨rfl, hW⟩ rfl
      refine (exec_loop_sim (A := Eq) (B := fun _ => Eq) (C := Eq) hI.fuel ?_ ?_ ?_ ?_ ?_ hW
        m₁).map fun W W' hW => ⟨rfl, hW⟩
      · rintro W _ m rfl
        exact c.evaluate_sim hI hF (fun _ _ => rfl) m
      · exact fun _ _ => id
      · rintro W _ m rfl
        exact execBlock_mapBlocks_of hf hd hF (execStatements_mapBlocks hf hd hI body) W m
      · exact fun _ _ => id
      · rintro l W _ m - rfl
        exact execBlock_mapBlocks_of hf hd hF (execStatements_mapBlocks hf hd hI post) W m
    · rintro l W _ rfl
      rfl
  | .break | .continue => exact .ok ⟨rfl, rfl⟩ rfl
  | .block ss => exact execBlock_mapBlocks_of hf hd hF (execStatements_mapBlocks hf hd hI ss) V m

lemma execStatements_mapBlocks (hf : KeepsStatements dialect f) (hd : I'.dialect = dialect)
    (hI : I.Sim p q (FunctionDefinition.BlocksMapped f) I') (ss : List Statement)
    {F F' : Functions} (hF : F.Rel (FunctionDefinition.BlocksMapped f) F') (V : Variables)
    (m : SvmState World) :
    Result.Sim p q Eq (Outcome fun _ => Eq) (execStatements I F V ss m)
      (execStatements I' F' V (mapBlocksOfStatements f ss) m) := by
  match ss with
  | [] => exact .ok ⟨rfl, rfl⟩ rfl
  | s :: ss =>
    have hs := exec_mapBlocks hf hd hI s hF V m
    rw [← exec_singleton (s.mapBlocks f)] at hs
    refine exec_cons_sim hs ?_ (fun _ _ _ _ => id)
    rintro W _ m₁ rfl
    exact execStatements_mapBlocks hf hd hI ss hF W m₁

lemma execCases_mapBlocks (hf : KeepsStatements dialect f) (hd : I'.dialect = dialect)
    (hI : I.Sim p q (FunctionDefinition.BlocksMapped f) I') (cs : List Case)
    {F F' : Functions} (hF : F.Rel (FunctionDefinition.BlocksMapped f) F') (V : Variables)
    (v : Word) (m : SvmState World) :
    Result.Sim p q Eq (Outcome fun _ => Eq) (execCases I F V v cs m)
      (execCases I' F' V v (mapBlocksOfCases f cs) m) := by
  match cs with
  | [] => exact .ok ⟨rfl, rfl⟩ rfl
  | .mk value body :: cs =>
    exact execCases_cons_sim
      (execBlock_mapBlocks_of hf hd hF (execStatements_mapBlocks hf hd hI body) V m)
      (execCases_mapBlocks hf hd hI cs hF V v m)

end

lemma execBlock_mapBlocks (hf : KeepsStatements dialect f) (hd : I'.dialect = dialect)
    (hI : I.Sim p q (FunctionDefinition.BlocksMapped f) I') (ss : Block)
    {F F' : Functions} (hF : F.Rel (FunctionDefinition.BlocksMapped f) F') (V : Variables)
    (m : SvmState World) :
    Result.Sim p q Eq (Outcome fun _ => Eq) (execBlock I F V ss m)
      (execBlock I' F' V (Block.mapBlocks f ss) m) :=
  execBlock_mapBlocks_of hf hd hF (execStatements_mapBlocks hf hd hI ss) V m

/-- A pass that keeps what the statements of each block do keeps the meaning of programs. -/
theorem sameRuns_mapBlocks (hf : KeepsStatements dialect f) (env : Environment World)
    (ss : Block) : SameRuns env dialect ss (Block.mapBlocks f ss) := by
  refine SameRuns.of_eq fun n m => Result.Sim.eq (run_sim (A := fun _ => Eq) ?_)
  refine execBlock_mapBlocks hf (by rfl) ?_ ss Functions.Rel.none _ m
  refine sim_ofBound (k := 0) (.inl rfl) ?_ n
  rintro I I' hd - hI F F' hF d d' ⟨hparameters, hreturns, hbody⟩ vs m
  have hvars : d'.variables vs = d.variables vs := by
    rw [FunctionDefinition.variables, FunctionDefinition.variables, hparameters, hreturns]
  rw [FunctionDefinition.run, FunctionDefinition.run, hvars, hreturns, hbody]
  refine (execBlock_mapBlocks hf (hI.dialect.trans hd) hI d.body hF (d.variables vs) m).map ?_
  rintro ⟨l, W⟩ ⟨l', W'⟩ ⟨-, hW⟩
  obtain rfl : W = W' := hW
  rfl

/-! ### Programs that stay valid -/

/-- The function also keeps statements valid. -/
structure KeepsValidity (dialect : Dialect) (f : Block → Block) : Prop where
  statements : KeepsStatements dialect f
  valid : ∀ Γ ss, statementsValid dialect Γ ss = true → statementsValid dialect Γ (f ss) = true
  nil : f [] = []

lemma blockValid_mapBlocks_of (hf : KeepsValidity dialect f)
    {ss : Block} {Γ : Scope}
    (h : statementsValid dialect (Γ.register ss) (mapBlocksOfStatements f ss)) :
    statementsValid dialect (Γ.register (Block.mapBlocks f ss)) (Block.mapBlocks f ss) := by
  rw [Scope.register_congr (visibleFunctions_mapBlocks hf.statements ss)]
  exact hf.valid _ _ h

mutual

lemma valid_mapBlocks (hf : KeepsValidity dialect f)
    (s : Statement) {Γ : Scope} (h : s.valid dialect Γ)
    (hinit : s.every Statement.initEmpty) : (s.mapBlocks f).valid dialect Γ := by
  match s with
  | .expressionStatement _ | .assignment _ _ | .variableDeclaration _ _ | .break | .continue =>
    exact h
  | .functionDefinition g ps rs body =>
    rw [valid_function, and_eq_true] at h
    rw [Statement.mapBlocks, valid_function, and_eq_true]
    exact ⟨h.1, blockValid_mapBlocks_of hf (statementsValid_mapBlocks hf body h.2
      (Statement.every_function.mp hinit).2)⟩
  | .if c body =>
    rw [valid_if, and_eq_true] at h
    rw [Statement.mapBlocks, valid_if, and_eq_true]
    exact ⟨h.1, blockValid_mapBlocks_of hf
      (statementsValid_mapBlocks hf body h.2 (Statement.every_if.mp hinit).2)⟩
  | .switch e cases =>
    rw [valid_switch, and_eq_true] at h
    rw [Statement.mapBlocks, valid_switch, and_eq_true]
    exact ⟨h.1, casesValid_mapBlocks hf cases h.2 (Statement.every_switch.mp hinit).2⟩
  | .forLoop (_ :: _) c post body => exact absurd (Statement.every_forLoop.mp hinit).1 (by nofun)
  | .forLoop [] c post body =>
    obtain ⟨-, -, hpost, hbody⟩ := Statement.every_forLoop.mp hinit
    rw [valid_forLoop_nil, and_eq_true, and_eq_true] at h
    have hnil : Block.mapBlocks f [] = [] := hf.nil
    rw [Statement.mapBlocks_forLoop, hnil, valid_forLoop_nil, and_eq_true, and_eq_true]
    exact ⟨⟨h.1.1, blockValid_mapBlocks_of hf
        (statementsValid_mapBlocks hf post h.1.2 hpost)⟩,
      blockValid_mapBlocks_of hf (statementsValid_mapBlocks hf body h.2 hbody)⟩
  | .block ss =>
    exact blockValid_mapBlocks_of hf
      (statementsValid_mapBlocks hf ss h (Statement.every_block.mp hinit).2)

lemma statementsValid_mapBlocks (hf : KeepsValidity dialect f)
    (ss : List Statement) {Γ : Scope} (h : statementsValid dialect Γ ss)
    (hinit : everyStatement Statement.initEmpty ss) :
    statementsValid dialect Γ (mapBlocksOfStatements f ss) := by
  match ss with
  | [] => rfl
  | s :: ss =>
    rw [statementsValid, and_eq_true] at h
    obtain ⟨hs, hss⟩ := everyStatement_cons.mp hinit
    rw [mapBlocksOfStatements, statementsValid, and_eq_true, declares_mapBlocks]
    exact ⟨valid_mapBlocks hf s h.1 hs, statementsValid_mapBlocks hf ss h.2 hss⟩

lemma casesValid_mapBlocks (hf : KeepsValidity dialect f)
    (cs : List Case) {Γ : Scope} (h : casesValid dialect Γ cs)
    (hinit : everyCase Statement.initEmpty cs) :
    casesValid dialect Γ (mapBlocksOfCases f cs) := by
  match cs with
  | [] => rfl
  | .mk value body :: cs =>
    rw [casesValid, and_eq_true, and_eq_true] at h
    obtain ⟨hbody, hcs⟩ := everyCase_cons.mp hinit
    rw [mapBlocksOfCases_cons, casesValid, and_eq_true, and_eq_true]
    exact ⟨⟨h.1.1, blockValid_mapBlocks_of hf
      (statementsValid_mapBlocks hf body h.1.2 hbody)⟩,
        casesValid_mapBlocks hf cs h.2 hcs⟩

end

/-- A pass that keeps the statements of a block valid keeps programs without init parts valid. -/
lemma blockValid_mapBlocks (hf : KeepsValidity dialect f)
    (ss : Block) (h : Block.valid dialect ss)
    (hinit : everyStatement Statement.initEmpty ss) :
    Block.valid dialect (Block.mapBlocks f ss) :=
  blockValid_mapBlocks_of hf (statementsValid_mapBlocks hf ss h hinit)

lemma names_mapBlocks_of (hf : ∀ ss, (f ss).Sublist ss) {ss : Block}
    (h : (namesOfStatements (mapBlocksOfStatements f ss)).Sublist (namesOfStatements ss)) :
    (namesOfStatements (Block.mapBlocks f ss)).Sublist (namesOfStatements ss) :=
  (names_sublist (hf _)).trans h

mutual

lemma Statement.names_mapBlocks (hf : ∀ ss, (f ss).Sublist ss) (s : Statement) :
    (s.mapBlocks f).names.Sublist s.names := by
  match s with
  | .expressionStatement _ | .assignment _ _ | .variableDeclaration _ _ | .break | .continue =>
    exact .refl _
  | .functionDefinition g ps rs body =>
    exact (List.Sublist.refl _).append (names_mapBlocks_of hf (names_mapBlocksOfStatements hf body))
  | .if c body => exact names_mapBlocks_of hf (names_mapBlocksOfStatements hf body)
  | .switch e cases => exact names_mapBlocksOfCases hf cases
  | .forLoop pre c post body =>
    have hpre := names_mapBlocks_of hf (names_mapBlocksOfStatements hf pre)
    exact (hpre.append (names_mapBlocks_of hf (names_mapBlocksOfStatements hf body))).append
      (names_mapBlocks_of hf (names_mapBlocksOfStatements hf post))
  | .block ss => exact names_mapBlocks_of hf (names_mapBlocksOfStatements hf ss)

lemma names_mapBlocksOfStatements (hf : ∀ ss, (f ss).Sublist ss) (ss : List Statement) :
    (namesOfStatements (mapBlocksOfStatements f ss)).Sublist (namesOfStatements ss) := by
  match ss with
  | [] => exact .slnil
  | s :: ss => exact (s.names_mapBlocks hf).append (names_mapBlocksOfStatements hf ss)

lemma names_mapBlocksOfCases (hf : ∀ ss, (f ss).Sublist ss) (cs : List Case) :
    (namesOfCases (mapBlocksOfCases f cs)).Sublist (namesOfCases cs) := by
  match cs with
  | [] => exact .slnil
  | .mk value body :: cs =>
    exact (names_mapBlocks_of hf (names_mapBlocksOfStatements hf body)).append
      (names_mapBlocksOfCases hf cs)

end

end

end Yul
