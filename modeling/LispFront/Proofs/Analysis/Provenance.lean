import LispFront.Proofs.Analysis.Counter
import LispFront.Proofs.Analysis.Binders

/-!
# The provenance of analyzed trees

Whatever the expander does and whatever the store holds, a tree that comes out of an analysis in `e`
satisfies `Analyzed e`. A level of the analysis chooses a construct, and the depth limit carries the
induction.
-/

namespace LispFront

open AnalyzerM

theorem yields_analyzeName (a : Analyzer) (s : Symbol) (m : FormMap) (e : Env) :
    Yields (a.analyzeName (.symbol s m) s e) (Analyzed e) := by
  unfold Analyzer.analyzeName
  split
  · rename_i b hb
    have hf : (Op.localRef b.withoutInit).Fits e (.symbol s m) := ⟨s, m, rfl, by rw [hb]; rfl⟩
    exact yields_pure (.of_slots hf trivial)
  · rename_i hnone
    refine yields_bind yields_true fun d _ => ?_
    split
    · exact yields_pure (.of_slots ⟨s, m, rfl, hnone⟩ trivial)
    · split
      · exact yields_pure (.of_slots ⟨s, m, rfl, hnone⟩ trivial)
      · split
        · exact yields_pure (.of_slots ⟨s, m, rfl, hnone⟩ trivial)
        · exact yields_fail _ _

section Level

variable {recurse : Recurse} (hr : recurse.Sound)
include hr

theorem yields_analyzeInvoke (form head : Form) (args : List Form) (e : Env) :
    Yields (Analyzer.analyzeInvoke recurse form head args e) (Analyzed e) := by
  unfold Analyzer.analyzeInvoke
  refine yields_bind (hr _ _) fun fn hf => ?_
  refine yields_bind (yields_analyzeAll hr _ _) fun args ha => ?_
  exact yields_pure (.of_slots trivial ⟨hf, .many ha, trivial⟩)

theorem yields_analyzeExpansion (form expansion : Form) (e : Env) :
    Yields (Analyzer.analyzeExpansion recurse form expansion e) (Analyzed e) := by
  unfold Analyzer.analyzeExpansion
  refine yields_bind (hr _ _) fun n hn => ?_
  exact yields_pure (.expandedFrom form hn)

theorem yields_analyzeCall (form head : Form) (args : List Form) (e : Env) :
    Yields (Analyzer.analyzeCall recurse form head args e) (Analyzed e) := by
  unfold Analyzer.analyzeCall
  split
  · exact yields_analyzeInvoke hr form head args e
  · exact yields_analyzeSequence hr form args e false
  · exact yields_analyzeIf hr form args e
  · exact yields_analyzeNew hr form args e
  · exact yields_analyzeQuote form args e
  · exact yields_analyzeAssign hr form args e
  · exact yields_analyzeTry hr form args e
  · exact yields_analyzeThrow hr form args e
  · exact yields_analyzeDef hr form args e
  · exact yields_analyzeDot hr form args e
  · exact yields_analyzeLet hr form args e
  · exact yields_analyzeLetfn hr form args e
  · exact yields_analyzeLoop hr form args e
  · exact yields_analyzeRecur hr form args e
  · exact yields_analyzeFn hr form head args e
  · exact yields_analyzeVar form args e
  · exact yields_analyzeCase hr form args e

theorem yields_analyzeSymbol (a : Analyzer) (s : Symbol) (m : FormMap) (e : Env) :
    Yields (a.analyzeSymbol recurse (.symbol s m) s e) (Analyzed e) := by
  unfold Analyzer.analyzeSymbol
  refine yields_bind yields_true fun expansion _ => ?_
  split
  · exact yields_analyzeName a s m e
  · exact yields_analyzeExpansion hr _ _ e

theorem yields_analyzeList (a : Analyzer) (form head : Form) (args : List Form) (e : Env) :
    Yields (a.analyzeList recurse form head args e) (Analyzed e) := by
  unfold Analyzer.analyzeList
  split
  · exact yields_fail _ _
  · refine yields_bind yields_true fun expansion _ => ?_
    refine yields_within form ?_
    split
    · exact yields_analyzeCall hr form head args e
    · exact yields_analyzeExpansion hr _ _ e

theorem yields_analyzeLevel (a : Analyzer) (form : Form) (e : Env) :
    Yields (a.analyzeLevel recurse form e) (Analyzed e) := by
  unfold Analyzer.analyzeLevel
  split
  · exact yields_analyzeSymbol hr a _ _ e
  · exact yields_analyzeList hr a _ _ _ e
  · exact yields_analyzeItems hr .vector _ _ e fun _ c hs => .of_slots trivial ⟨.many hs, trivial⟩
  · exact yields_analyzeMap hr _ _ e
  · exact yields_analyzeItems hr .set _ _ e fun _ c hs => .of_slots trivial ⟨.many hs, trivial⟩
  · exact yields_pure (.constant _ _)

end Level

theorem analyzeUpTo_sound (a : Analyzer) (levels : Nat) : (a.analyzeUpTo levels).Sound := by
  induction levels with
  | zero => exact fun f e => yields_fail _ _
  | succ levels ih => exact fun f e => yields_analyzeLevel ih a f e

theorem analyzed_of_analyzeIn {a : Analyzer} {form : Form} {env : Env} {s t : Store} {n : Node}
    (h : (a.analyzeIn form env).run.run s = (.ok n, t)) : Analyzed env n :=
  analyzeUpTo_sound a a.maxDepth form env _ n _ (Analyzer.run_analyzeIn_iff.mp h)

end LispFront
