import LispFront.Proofs.Analysis.Relational.Analyzer
import LispFront.Proofs.Analysis.Parts.Binders

/-!
# What a level of analysis is made of

A level of the analysis asks the expander, if the form is one that is expanded, and then analyzes
the expansion, or else the parts of the form. Errors that come out of a list are located at it.
-/

namespace LispFront

open AnalyzerM Recurse.Composes

def Form.isCall : Form → Bool
  | .list (_ :: _) _ => true
  | _ => false

def AnalysisError.leaving (form : Form) (e : AnalysisError) : AnalysisError :=
  if form.isCall then e.within form else e

section Call

variable {recurse : Recurse} {head : Form} {args : List Form} {m : FormMap}

theorem calls_of_ofHead? {k : SpecialForm} (h : SpecialForm.ofHead? head = some k) :
    (Form.list (head :: args) m).Calls k.name args := by
  cases head with
  | symbol s m' =>
    have hfind : SpecialForm.all.find? (fun k => s.is k.name) = some k := h
    have hname := List.find?_some hfind
    obtain rfl : s = .plain k.name := eq_of_beq hname
    exact ⟨m', m, rfl⟩
  | _ => cases h

theorem composes_analyzeInvoke (e : Env) :
    recurse.Composes (.list (head :: args) m)
      (Analyzer.analyzeInvoke recurse (.list (head :: args) m) head args e) := by
  unfold Analyzer.analyzeInvoke
  refine andThen (.hasPart (Form.hasPart_of_mem List.mem_cons_self) _) fun _ => ?_
  refine andThen (composes_analyzeAll (fun f hf => ?_) _) fun _ => .pure _
  exact Form.hasPart_of_mem (List.mem_cons_of_mem _ hf)

theorem composes_analyzeCall (e : Env) :
    recurse.Composes (.list (head :: args) m)
      (Analyzer.analyzeCall recurse (.list (head :: args) m) head args e) := by
  unfold Analyzer.analyzeCall
  split <;> rename_i hhead
  · exact composes_analyzeInvoke e
  · exact composes_analyzeSequence (calls_of_ofHead? hhead).hasPart _ e false
  · exact composes_analyzeIf (calls_of_ofHead? hhead) e
  · exact composes_analyzeNew (calls_of_ofHead? hhead) e
  · exact composes_analyzeQuote (calls_of_ofHead? hhead) e
  · exact composes_analyzeAssign (calls_of_ofHead? hhead) e
  · exact composes_analyzeTry (calls_of_ofHead? hhead) e
  · exact composes_analyzeThrow (calls_of_ofHead? hhead) e
  · exact composes_analyzeDef (calls_of_ofHead? hhead) e
  · exact composes_analyzeDot (calls_of_ofHead? hhead) e
  · exact composes_analyzeLet (calls_of_ofHead? hhead) e
  · exact composes_analyzeLetfn (calls_of_ofHead? hhead) e
  · exact composes_analyzeLoop (calls_of_ofHead? hhead) e
  · exact composes_analyzeRecur (calls_of_ofHead? hhead) e
  · exact composes_analyzeFn (calls_of_ofHead? hhead) head e
  · exact composes_analyzeVar (calls_of_ofHead? hhead) e
  · exact composes_analyzeCase (calls_of_ofHead? hhead) e

theorem composes_analyzeName (a : Analyzer) (form : Form) (s : Symbol) (e : Env) :
    recurse.Composes form (a.analyzeName form s e) := by
  unfold Analyzer.analyzeName
  split
  · exact .pure _
  · refine andThen .directory fun d => ?_
    split
    · exact .pure _
    · split
      · exact .pure _
      · split
        · exact .pure _
        · exact .self trivial

end Call

namespace AnalyzerM

def leaving (form : Form) (x : AnalyzerM α) : AnalyzerM α :=
  if form.isCall then within form x else x

theorem run_leaving (form : Form) (x : AnalyzerM α) (s : Analysis) :
    (leaving form x).run.run s =
      match x.run.run s with
      | (.ok a, t) => (.ok a, t)
      | (.error e, t) => (.error (e.leaving form), t) := by
  unfold leaving AnalysisError.leaving
  split
  · exact run_within form x s
  · rcases x.run.run s with ⟨e | a, t⟩
    · rfl
    · rfl

theorem error_of_leaving {form : Form} {x : AnalyzerM α} {s t : Analysis} {e : AnalysisError}
    (h : (leaving form x).run.run s = (.error e, t)) :
    ∃ e', x.run.run s = (.error e', t) ∧ e = e'.leaving form := by
  rw [run_leaving] at h
  rcases hx : x.run.run s with ⟨e' | c, u⟩
  · rw [hx] at h
    cases h
    exact ⟨e', rfl, rfl⟩
  · rw [hx] at h
    cases h

theorem leaving_fail (form : Form) (fault : AnalysisFault) :
    leaving form (AnalyzerM.fail fault form : AnalyzerM α) = AnalyzerM.fail fault form := by
  have hself : (AnalysisError.of fault form).leaving form = .of fault form := by
    simp [AnalysisError.leaving, AnalysisError.within, AnalysisError.of]
  funext s
  change (leaving form (AnalyzerM.fail fault form)).run.run s = _
  rw [run_leaving]
  change (Except.error ((AnalysisError.of fault form).leaving form), s) = _
  rw [hself]
  rfl

end AnalyzerM

namespace Analyzer

/-- The form is analyzed as it stands: the expander gives it back, or is not asked. -/
def Keeps (a : Analyzer) (form : Form) (env : Env) : Prop :=
  form.isExpanded → ∃ g, a.expand form env = .ok g ∧ g == form

/-- The ways in which one level analyzes `form` in `env`. -/
inductive Level (a : Analyzer) (recurse : Recurse) (form : Form) (env : Env) :
    AnalyzerM Node → Prop
  | expander {e : AnalysisError} : form.isExpanded → a.expand form env = .error e →
      Level a recurse form env (throw e)
  | expansion {g : Form} : form.isExpanded → a.expand form env = .ok g → (g == form) = false →
      Level a recurse form env (leaving form (analyzeExpansion recurse form g env))
  | construct {x : AnalyzerM Node} : a.Keeps form env → recurse.Composes form x →
      Level a recurse form env (leaving form x)

variable {a : Analyzer} {recurse : Recurse} {form : Form} {env : Env}

theorem level_of_choice {x y : AnalyzerM Node} (hform : form.isExpanded)
    (hx : recurse.Composes form x)
    (hy : ∀ g, a.expand form env = .ok g →
      y = leaving form (if g == form then x else analyzeExpansion recurse form g env))
    (herror : ∀ e, a.expand form env = .error e → y = throw e) : a.Level recurse form env y := by
  rcases hg : a.expand form env with e | g
  · rw [herror e hg]
    exact .expander hform hg
  · rw [hy g hg]
    split
    · rename_i heq
      exact .construct (fun _ => ⟨g, hg, heq⟩) hx
    · rename_i hne
      exact .expansion hform hg (eq_false_of_ne_true hne)

theorem level_analyzeSymbol (x : Symbol) (m : FormMap) :
    a.Level recurse (.symbol x m) env (a.analyzeSymbol recurse (.symbol x m) x env) := by
  refine level_of_choice rfl (composes_analyzeName a _ x env) (fun g hg => ?_) fun e he => ?_
  · rw [analyzeSymbol, Analyzer.expansion, hg, pure_bind]
    rfl
  · rw [analyzeSymbol, Analyzer.expansion, he]
    rfl

theorem level_analyzeList (head : Form) (args : List Form) (m : FormMap) :
    a.Level recurse (.list (head :: args) m) env
      (a.analyzeList recurse (.list (head :: args) m) head args env) := by
  have hexpanded (hform : (Form.list (head :: args) m).isExpanded) :
      a.analyzeList recurse (.list (head :: args) m) head args env = (do
        let expansion ← a.expansion (.list (head :: args) m) env
        within (.list (head :: args) m) <|
          if expansion == .list (head :: args) m then
            analyzeCall recurse (.list (head :: args) m) head args env
          else analyzeExpansion recurse (.list (head :: args) m) expansion env) := by
    cases head with
    | nil => cases hform
    | _ => rfl
  cases hform : (Form.list (head :: args) m).isExpanded with
  | true =>
    rw [hexpanded hform]
    refine level_of_choice hform (composes_analyzeCall env) (fun g hg => ?_) fun e he => ?_
    · rw [Analyzer.expansion, hg, pure_bind]
      rfl
    · rw [Analyzer.expansion, he]
      rfl
  | false =>
    cases head with
    | nil =>
      have hkeeps : a.Keeps (.list (.nil :: args) m) env := by
        intro hexpanded
        cases hexpanded
      have hlevel : a.Level recurse (.list (.nil :: args) m) env
          (leaving (.list (.nil :: args) m) (AnalyzerM.fail .callOfNil (.list (.nil :: args) m))) :=
        .construct hkeeps (.self trivial)
      rwa [leaving_fail] at hlevel
    | _ => cases hform

theorem level_analyzeLevel (a : Analyzer) (recurse : Recurse) (form : Form) (env : Env) :
    a.Level recurse form env (a.analyzeLevel recurse form env) := by
  cases form with
  | symbol x m => exact level_analyzeSymbol x m
  | list es m =>
    cases es with
    | nil => exact .construct nofun (.pure _)
    | cons head args => exact level_analyzeList head args m
  | vector items m => exact .construct nofun (composes_analyzeItems .vector (fun _ hf => hf) env)
  | map entries m => exact .construct nofun (composes_analyzeMap entries m env)
  | set items m => exact .construct nofun (composes_analyzeItems .set (fun _ hf => hf) env)
  | _ => exact .construct nofun (.pure _)

end Analyzer

end LispFront
