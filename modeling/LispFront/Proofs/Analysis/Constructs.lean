import LispFront.Analysis.Branch
import LispFront.Analysis.Definition
import LispFront.Analysis.Exception
import LispFront.Analysis.Interop
import LispFront.Proofs.Analysis.Yields
import LispFront.Proofs.Tree.Env
import LispFront.Proofs.Tree.Provenance

/-!
# The provenance of constructs without binders

What a construct gives has the provenance of the construct's environment, if every part is analyzed
in the environment of its slot. Handlers bind a local, but stand beside their `try`.
-/

namespace LispFront

open AnalyzerM

/-- Whatever `recurse` gives has the provenance that it should have. -/
def Recurse.Sound (recurse : Recurse) : Prop := ∀ f e, Yields (recurse f e) (Analyzed e)

namespace Analyzed

theorem metadataConstant (m : FormMap) (e : Env) : ∀ n ∈ metadataConstant? m e, Analyzed e n := by
  intro n hn
  unfold metadataConstant? at hn
  split at hn
  · cases hn
  · cases hn
    exact of_slots trivial trivial

theorem binding {b : Binding} {e : Env} {form : Form} {env : Env}
    (h : ∀ n ∈ b.init, Analyzed (e.withContext .expr) n) :
    Analyzed (e.withContext .expr) (.of (.binding b) form env) :=
  of_slots trivial (.opt h)

theorem constant (f : Form) (e : Env) : Analyzed e (LispFront.constant f e) :=
  of_slots trivial (InSlots.opt (metadataConstant _ _))

end Analyzed

theorem yields_analyzeQuote (form : Form) (args : List Form) (e : Env) :
    Yields (analyzeQuote form args e) (Analyzed e) := by
  unfold analyzeQuote
  split
  · exact yields_pure (.of_slots trivial ⟨.constant _ _, trivial⟩)
  · exact yields_fail _ _

theorem yields_analyzeVar (form : Form) (args : List Form) (e : Env) :
    Yields (analyzeVar form args e) (Analyzed e) := by
  unfold analyzeVar
  split
  · split
    · refine yields_bind yields_true fun d _ => ?_
      split
      · exact yields_pure (.of_slots trivial trivial)
      · exact yields_fail _ _
    · exact yields_fail _ _
  · exact yields_fail _ _

section Constructs

variable {recurse : Recurse} (hr : recurse.Sound)
include hr

theorem yields_analyzeAll (forms : List Form) (e : Env) :
    Yields (analyzeAll recurse forms e) fun ns => ∀ n ∈ ns, Analyzed e n :=
  yields_mapM fun f _ => hr f e

theorem yields_analyzeIf (form : Form) (args : List Form) (e : Env) :
    Yields (analyzeIf recurse form args e) (Analyzed e) := by
  unfold analyzeIf
  split
  · refine yields_bind (hr _ _) fun test ht => ?_
    refine yields_bind (hr _ _) fun onTrue ha => ?_
    exact yields_pure (.of_slots trivial ⟨ht, ha, .constant _ _, trivial⟩)
  · refine yields_bind (hr _ _) fun test ht => ?_
    refine yields_bind (hr _ _) fun onTrue ha => ?_
    refine yields_bind (hr _ _) fun onFalse hb => ?_
    exact yields_pure (.of_slots trivial ⟨ht, ha, hb, trivial⟩)
  · exact yields_fail _ _

theorem yields_analyzeSequence (form : Form) (exprs : List Form) (e : Env) (body : Bool) :
    Yields (analyzeSequence recurse form exprs e body) (Analyzed e) := by
  unfold analyzeSequence
  split
  · exact yields_pure (.of_slots trivial ⟨.many (by simp), .constant _ _, trivial⟩)
  · refine yields_bind (yields_analyzeAll hr _ _) fun statements hs => ?_
    refine yields_bind (hr _ _) fun ret ht => ?_
    exact yields_pure (.of_slots trivial ⟨.many hs, ht, trivial⟩)

theorem yields_analyzeBody (exprs : List Form) (e : Env) :
    Yields (analyzeBody recurse exprs e) (Analyzed e) :=
  yields_analyzeSequence hr _ exprs e true

/-- What carries metadata is moved into expression context, so it must not depend on its own. -/
theorem yields_wrapMetadata {n : Node} (hn : ∀ c, Analyzed (n.env.withContext c) n) :
    Yields (wrapMetadata recurse n) (Analyzed n.env) := by
  unfold wrapMetadata
  dsimp only
  split
  · have h := hn n.env.context
    rw [Env.withContext_context] at h
    exact yields_pure h
  · refine yields_bind (hr _ _) fun metadata hm => ?_
    exact yields_pure (.of_slots trivial ⟨hm, .restored (hn .expr), trivial⟩)

theorem yields_analyzeItems (op : List Node → Op) (form : Form) (items : List Form) (e : Env)
    (hop : ∀ nodes c, (∀ n ∈ nodes, Analyzed (e.withContext .expr) n) →
      Analyzed (e.withContext c) (.of (op nodes) form e)) :
    Yields (analyzeItems recurse op form items e) (Analyzed e) := by
  unfold analyzeItems
  refine yields_bind (yields_analyzeAll hr _ _) fun nodes hs => ?_
  exact yields_wrapMetadata hr fun c => hop nodes c hs

theorem yields_analyzeEntries (e : Env) (entries : List (Form × Form)) :
    Yields (analyzeEntries recurse e entries) fun ns =>
      (∀ n ∈ ns.1, Analyzed e n) ∧ ∀ n ∈ ns.2, Analyzed e n := by
  induction entries with
  | nil => exact yields_pure ⟨by simp, by simp⟩
  | cons entry entries ih =>
    unfold analyzeEntries
    refine yields_bind (hr _ _) fun key hk => ?_
    refine yields_bind (hr _ _) fun val hv => ?_
    refine yields_bind ih fun ns hs => ?_
    exact yields_pure ⟨List.forall_mem_cons.mpr ⟨hk, hs.1⟩, List.forall_mem_cons.mpr ⟨hv, hs.2⟩⟩

theorem yields_analyzeMap (form : Form) (entries : FormMap) (e : Env) :
    Yields (analyzeMap recurse form entries e) (Analyzed e) := by
  unfold analyzeMap
  refine yields_bind (yields_analyzeEntries hr _ _) fun ns hs => ?_
  have hn (c : Context) : Analyzed (e.withContext c) (.of (.map ns.1 ns.2) form e) :=
    .of_slots trivial ⟨.many hs.1, .many hs.2, trivial⟩
  exact yields_wrapMetadata hr hn

theorem yields_branches (form : Form) (e : Env) (entries : List (Form × Form)) :
    Yields (Case.branches recurse form e entries) fun ns =>
      ∀ n ∈ ns, Analyzed e n ∧ n.op.isCaseBranch := by
  induction entries with
  | nil => exact yields_pure (by simp)
  | cons entry entries ih =>
    unfold Case.branches
    refine yields_bind yields_true fun pair _ => ?_
    refine yields_bind (hr _ _) fun body hb => ?_
    refine yields_bind ih fun ns hs => ?_
    refine yields_pure (List.forall_mem_cons.mpr ⟨⟨?_, rfl⟩, hs⟩)
    exact .of_slots trivial ⟨.many (by simpa using .constant _ _), hb, trivial⟩

theorem yields_analyzeCase (form : Form) (args : List Form) (e : Env) :
    Yields (analyzeCase recurse form args e) (Analyzed e) := by
  unfold analyzeCase
  split
  · split
    · refine yields_bind yields_true fun _ _ => ?_
      refine yields_bind yields_true fun _ _ => ?_
      refine yields_bind yields_true fun _ _ => ?_
      refine yields_bind yields_true fun _ _ => ?_
      refine yields_bind yields_true fun _ _ => ?_
      refine yields_bind (hr _ _) fun test ht => ?_
      refine yields_bind (yields_branches hr _ _ _) fun branches hs => ?_
      refine yields_bind (hr _ _) fun default hd => ?_
      refine yields_pure (.of_slots (fun b hb => (hs b hb).2) ⟨ht, .many ?_, hd, trivial⟩)
      exact fun b hb => (hs b hb).1
    · exact yields_fail _ _
  · exact yields_fail _ _

theorem yields_analyzeThrow (form : Form) (args : List Form) (e : Env) :
    Yields (analyzeThrow recurse form args e) (Analyzed e) := by
  unfold analyzeThrow
  split
  · refine yields_bind (hr _ _) fun exception he => ?_
    exact yields_pure (.of_slots trivial ⟨he, trivial⟩)
  · exact yields_fail _ _

theorem yields_analyzeNew (form : Form) (args : List Form) (e : Env) :
    Yields (analyzeNew recurse form args e) (Analyzed e) := by
  unfold analyzeNew
  split
  · refine yields_bind (hr _ _) fun cls hc => ?_
    refine yields_bind (yields_analyzeAll hr _ _) fun args ha => ?_
    exact yields_pure (.of_slots trivial ⟨hc, .many ha, trivial⟩)
  · exact yields_fail _ _

theorem yields_analyzeAssign (form : Form) (args : List Form) (e : Env) :
    Yields (analyzeAssign recurse form args e) (Analyzed e) := by
  unfold analyzeAssign
  split
  · refine yields_bind (hr _ _) fun target ht => ?_
    refine yields_bind (hr _ _) fun val hv => ?_
    exact yields_pure (.of_slots trivial ⟨ht, hv, trivial⟩)
  · exact yields_fail _ _

theorem yields_analyzeDot (form : Form) (args : List Form) (e : Env) :
    Yields (analyzeDot recurse form args e) (Analyzed e) := by
  unfold analyzeDot
  split
  · refine yields_bind (hr _ _) fun target ht => ?_
    refine yields_bind yields_true fun member _ => ?_
    cases member with
    | field name => exact yields_pure (.of_slots trivial ⟨ht, trivial⟩)
    | access name => exact yields_pure (.of_slots trivial ⟨ht, trivial⟩)
    | call name args =>
      refine yields_bind (yields_analyzeAll hr _ _) fun args ha => ?_
      exact yields_pure (.of_slots trivial ⟨ht, .many ha, trivial⟩)
  · exact yields_fail _ _

theorem yields_analyzeDef (form : Form) (args : List Form) (e : Env) :
    Yields (analyzeDef recurse form args e) (Analyzed e) := by
  unfold analyzeDef
  refine yields_bind yields_true fun d _ => ?_
  refine yields_bind yields_true fun var _ => ?_
  have hrest : ∀ metadata : Option Node, (∀ n ∈ metadata, Analyzed (e.withContext .expr) n) →
      Yields (do
        let init ← d.init.mapM (recurse · (e.withContext .expr))
        return .of (.define var d.doc metadata init) form e) (Analyzed e) := by
    intro metadata hm
    refine yields_bind (yields_optionMapM fun f => hr f _) fun init hi => ?_
    exact yields_pure (.of_slots trivial (.append (.opt hm) (.opt hi)))
  dsimp only
  split
  · exact yields_bind (yields_pure (by simp)) hrest
  · exact yields_bind (yields_map (yields_mono (hr _ _) fun n hn => by simpa using hn)) hrest

theorem yields_analyzeCatch (e : Env) (form : Form) :
    Yields (analyzeCatch recurse (e.withContext .expr) form) (Analyzed (e.withContext .expr)) := by
  unfold analyzeCatch
  split
  · split
    · split
      · refine yields_bind (hr _ _) fun cls hc => ?_
        refine yields_bind (yields_analyzeBody hr _ _) fun body hb => ?_
        exact yields_pure (.of_slots trivial ⟨hc, .of_slots trivial trivial, hb, trivial⟩)
      · exact yields_fail _ _
    · exact yields_fail _ _
  · exact yields_fail _ _

theorem yields_analyzeTry (form : Form) (args : List Form) (e : Env) :
    Yields (analyzeTry recurse form args e) (Analyzed e) := by
  unfold analyzeTry
  dsimp only
  split
  · exact yields_fail _ _
  · exact yields_fail _ _
  · refine yields_bind (yields_analyzeBody hr _ _) fun body hb => ?_
    refine yields_bind (yields_mapM fun f _ => yields_analyzeCatch hr _ f) fun catches hc => ?_
    refine yields_bind (yields_optionMapM fun f => yields_analyzeBody hr _ _) fun cleanup hf => ?_
    exact yields_pure (.of_slots trivial ⟨hb, .many hc, .opt hf⟩)

end Constructs

end LispFront
