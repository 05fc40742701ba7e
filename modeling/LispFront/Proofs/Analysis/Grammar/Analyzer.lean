import LispFront.Proofs.Analysis.Counter
import LispFront.Proofs.Analysis.Grammar.Binders

/-!
# The grammar of analyzed trees

Whatever the expander does and whatever the store holds, a tree that comes out of an analysis is an
expression of the grammar. What a form expands to is analyzed by the same rules, and a map is never
expanded, so metadata comes out as a map.
-/

namespace LispFront

open AnalyzerM
open Node (Plays)

theorem plays_analyzeName (a : Analyzer) (form : Form) (s : Symbol) (e : Env) :
    Yields (a.analyzeName form s e) (Plays .expression) := by
  unfold Analyzer.analyzeName
  split
  · exact yields_pure (.of_slots rfl trivial .nil)
  · refine yields_bind yields_true fun d _ => ?_
    split
    · exact yields_pure (.of_slots rfl trivial .nil)
    · split
      · exact yields_pure (.of_slots rfl trivial .nil)
      · split
        · exact yields_pure (.of_slots rfl trivial .nil)
        · exact yields_fail _ _

section Level

variable {recurse : Recurse} (hr : recurse.Grammatical)
include hr

theorem plays_analyzeInvoke (form head : Form) (args : List Form) (e : Env) :
    Yields (Analyzer.analyzeInvoke recurse form head args e) (Plays .expression) := by
  unfold Analyzer.analyzeInvoke
  refine yields_bind (hr.plays _ _) fun fn hf => ?_
  refine yields_bind (plays_analyzeAll hr _ _) fun args ha => ?_
  exact yields_pure (.of_slots rfl trivial (.one hf (.many ha .nil)))

theorem plays_analyzeExpansion (form expansion : Form) (e : Env) :
    Yields (Analyzer.analyzeExpansion recurse form expansion e) (Plays .expression) := by
  unfold Analyzer.analyzeExpansion
  refine yields_bind (hr.plays _ _) fun n hn => ?_
  exact yields_pure (hn.congr rfl)

theorem plays_analyzeCall (form head : Form) (args : List Form) (e : Env) :
    Yields (Analyzer.analyzeCall recurse form head args e) (Plays .expression) := by
  unfold Analyzer.analyzeCall
  split
  · exact plays_analyzeInvoke hr form head args e
  · exact plays_analyzeSequence hr form args e false
  · exact plays_analyzeIf hr form args e
  · exact plays_analyzeNew hr form args e
  · exact plays_analyzeQuote form args e
  · exact plays_analyzeAssign hr form args e
  · exact plays_analyzeTry hr form args e
  · exact plays_analyzeThrow hr form args e
  · exact plays_analyzeDef hr form args e
  · exact plays_analyzeDot hr form args e
  · exact plays_analyzeLet hr form args e
  · exact plays_analyzeLetfn hr form args e
  · exact plays_analyzeLoop hr form args e
  · exact plays_analyzeRecur hr form args e
  · exact plays_analyzeFn hr form head args e
  · exact plays_analyzeVar form args e
  · exact plays_analyzeCase hr form args e

theorem plays_analyzeSymbol (a : Analyzer) (form : Form) (s : Symbol) (e : Env) :
    Yields (a.analyzeSymbol recurse form s e) (Plays .expression) := by
  unfold Analyzer.analyzeSymbol
  refine yields_bind yields_true fun expansion _ => ?_
  split
  · exact plays_analyzeName a form s e
  · exact plays_analyzeExpansion hr _ _ e

theorem plays_analyzeList (a : Analyzer) (form head : Form) (args : List Form) (e : Env) :
    Yields (a.analyzeList recurse form head args e) (Plays .expression) := by
  unfold Analyzer.analyzeList
  split
  · exact yields_fail _ _
  · refine yields_bind yields_true fun expansion _ => ?_
    refine yields_within form ?_
    split
    · exact plays_analyzeCall hr form head args e
    · exact plays_analyzeExpansion hr _ _ e

theorem plays_analyzeLevel (a : Analyzer) (form : Form) (e : Env) :
    Yields (a.analyzeLevel recurse form e) (Plays .expression) := by
  unfold Analyzer.analyzeLevel
  split
  · exact plays_analyzeSymbol hr a _ _ e
  · exact plays_analyzeList hr a _ _ _ e
  · exact plays_analyzeItems hr .vector _ _ e (fun _ => rfl) fun _ hs =>
      .of_slots rfl trivial (.many hs .nil)
  · exact plays_analyzeMap hr _ _ e
  · exact plays_analyzeItems hr .set _ _ e (fun _ => rfl) fun _ hs =>
      .of_slots rfl trivial (.many hs .nil)
  · exact yields_pure (.constant _ _)

end Level

theorem analyzeUpTo_grammatical (a : Analyzer) (levels : Nat) :
    (a.analyzeUpTo levels).Grammatical := by
  induction levels with
  | zero => exact ⟨fun f e => yields_fail _ _, fun m e _ => yields_fail _ _⟩
  | succ levels ih =>
    exact ⟨fun f e => plays_analyzeLevel ih a f e, fun m e hm => nonemptyMap_analyzeMap ih hm e⟩

/-- The tree is an expression, and below it every node is formed as its operator asks and every slot
holds what it is made for. -/
theorem grammar_of_analyzeIn {a : Analyzer} {form : Form} {env : Env} {s t : Store} {n : Node}
    (h : (a.analyzeIn form env).run.run s = (.ok n, t)) :
    n.op.role = .expression ∧
      ∀ hops m, n.Path hops m → m.op.Formed ∧
        ∀ slot i c, m.Holds slot i c → c.op.role = m.op.slotRole slot := by
  have hn : Plays .expression n :=
    (analyzeUpTo_grammatical a a.maxDepth).plays _ _ _ _ _ (Analyzer.run_analyzeIn_iff.mp h)
  refine ⟨hn.role_eq, fun hops m p => ?_⟩
  obtain ⟨role, hm⟩ := hn.along p
  exact ⟨hm.formed, fun slot i c hc => (hm.inSlots hc).role_eq⟩

theorem grammar_of_try :
    ∃ n t hops m cls caught body,
      (Analyzer.analyzeIn { home := .plain "user", checkClasses := false }
        (.call "try" [.nil, .call "catch" [.sym "E", .sym "e", .sym "e"]])
        (.empty (.plain "user"))).run.run ⟨.empty, .start⟩ = (.ok n, t) ∧
      n.Path hops m ∧ m.op = .handler cls caught body ∧ caught.op.Binds .catch false ∧
      cls.op.role = .expression ∧ body.op.role = .body ∧ n.op.role = .expression := by
  obtain ⟨n, t, hops, m, cls, caught, body, h, p, hm⟩ : ∃ n t hops m cls caught body,
      (Analyzer.analyzeIn { home := .plain "user", checkClasses := false }
        (.call "try" [.nil, .call "catch" [.sym "E", .sym "e", .sym "e"]])
        (.empty (.plain "user"))).run.run ⟨.empty, .start⟩ = (.ok n, t) ∧
      n.Path hops m ∧ m.op = .handler cls caught body :=
    ⟨_, _, _, _, _, _, _, rfl, Node.path_of_descend? [(.catches, 0)] rfl, rfl⟩
  obtain ⟨hrole, hbelow⟩ := grammar_of_analyzeIn h
  obtain ⟨hformed, hslots⟩ := hbelow hops m p
  have hcls := hslots .cls 0 cls ⟨.one cls, by simp [Node.children, hm, Op.children], rfl⟩
  have hbody := hslots .body 0 body ⟨.one body, by simp [Node.children, hm, Op.children], rfl⟩
  rw [hm] at hformed hcls hbody
  exact ⟨n, t, hops, m, cls, caught, body, h, p, hm, hformed, hcls, hbody, hrole⟩

end LispFront
