import LispFront.Analysis.Branch
import LispFront.Analysis.Definition
import LispFront.Analysis.Exception
import LispFront.Analysis.Interop
import LispFront.Proofs.Analysis.Yields
import LispFront.Proofs.Tree.Grammar

/-!
# The grammar of constructs without binders

If the parts of a construct come out as expressions, so does the construct, formed as its operator
asks. Metadata is wrapped around a node only where it is a map that says something, so of the parts
one must also know that a map with entries comes out as one.
-/

namespace LispFront

open AnalyzerM
open Node (Plays)

/-- Whatever `recurse` gives is an expression, and for a bare map with entries it is such a map. -/
structure Recurse.Grammatical (recurse : Recurse) : Prop where
  plays : ∀ f e, Yields (recurse f e) (Plays .expression)
  map : ∀ m e, m ≠ [] → Yields (recurse (.map m []) e) (·.op.IsNonemptyMap)

namespace Node.Plays

theorem constant (f : Form) (e : Env) : Plays .expression (LispFront.constant f e) := by
  have hmetadata : ∀ n ∈ metadataConstant? f.semanticMetadata (e.withContext .expr),
      ∃ m, n.op = .const .map (.map m []) none ∧ m ≠ [] := by
    intro n hn
    unfold metadataConstant? at hn
    split at hn
    · cases hn
    · rename_i hm
      cases hn
      exact ⟨_, rfl, by simpa using hm⟩
  refine .of_slots rfl hmetadata (InSlots.opt fun n hn => ?_)
  obtain ⟨m, hop, -⟩ := hmetadata n hn
  have hconst : Plays .expression (.of (.const .map (.map m []) none) n.form n.env) :=
    .of_slots rfl nofun .nil
  exact hconst.congr hop

end Node.Plays

theorem plays_analyzeQuote (form : Form) (args : List Form) (e : Env) :
    Yields (analyzeQuote form args e) (Plays .expression) := by
  unfold analyzeQuote
  split
  · exact yields_pure (.of_slots rfl trivial (.one (.constant _ _) .nil))
  · exact yields_fail _ _

theorem plays_analyzeVar (form : Form) (args : List Form) (e : Env) :
    Yields (analyzeVar form args e) (Plays .expression) := by
  unfold analyzeVar
  split
  · split
    · refine yields_bind yields_true fun d _ => ?_
      split
      · exact yields_pure (.of_slots rfl trivial .nil)
      · exact yields_fail _ _
    · exact yields_fail _ _
  · exact yields_fail _ _

section Constructs

variable {recurse : Recurse} (hr : recurse.Grammatical)
include hr

theorem plays_analyzeAll (forms : List Form) (e : Env) :
    Yields (analyzeAll recurse forms e) fun ns => ∀ n ∈ ns, Plays .expression n :=
  yields_mapM fun f _ => hr.plays f e

theorem plays_analyzeIf (form : Form) (args : List Form) (e : Env) :
    Yields (analyzeIf recurse form args e) (Plays .expression) := by
  unfold analyzeIf
  split
  · refine yields_bind (hr.plays _ _) fun test ht => ?_
    refine yields_bind (hr.plays _ _) fun onTrue ha => ?_
    exact yields_pure (.of_slots rfl trivial (.one ht (.one ha (.one (.constant _ _) .nil))))
  · refine yields_bind (hr.plays _ _) fun test ht => ?_
    refine yields_bind (hr.plays _ _) fun onTrue ha => ?_
    refine yields_bind (hr.plays _ _) fun onFalse hb => ?_
    exact yields_pure (.of_slots rfl trivial (.one ht (.one ha (.one hb .nil))))
  · exact yields_fail _ _

theorem plays_analyzeSequence (form : Form) (exprs : List Form) (e : Env) (body : Bool) :
    Yields (analyzeSequence recurse form exprs e body)
      (Plays (if body then .body else .expression)) := by
  have hrole (statements : List Node) (ret : Node) :
      (Op.sequence statements ret body).role = if body then .body else .expression := by
    cases body <;> rfl
  unfold analyzeSequence
  split
  · exact yields_pure (.of_slots (hrole _ _) trivial (.many nofun (.one (.constant _ _) .nil)))
  · refine yields_bind (plays_analyzeAll hr _ _) fun statements hs => ?_
    refine yields_bind (hr.plays _ _) fun ret ht => ?_
    exact yields_pure (.of_slots (hrole _ _) trivial (.many hs (.one ht .nil)))

theorem plays_analyzeBody (exprs : List Form) (e : Env) :
    Yields (analyzeBody recurse exprs e) (Plays .body) :=
  plays_analyzeSequence hr _ exprs e true

theorem plays_wrapMetadata {n : Node} (hn : Plays .expression n) (hop : n.op.carriesMetadata) :
    Yields (wrapMetadata recurse n) (Plays .expression) := by
  unfold wrapMetadata
  dsimp only
  split
  · exact yields_pure hn
  · rename_i hm
    have hne : n.form.semanticMetadata ≠ [] := by simpa using hm
    have hmetadata := yields_and (hr.plays _ (n.env.withContext .expr))
      (hr.map _ (n.env.withContext .expr) hne)
    refine yields_bind hmetadata fun metadata hmeta => ?_
    refine yields_pure (.of_slots rfl ⟨hmeta.2, hop, rfl⟩ (.one hmeta.1 (.one ?_ .nil)))
    exact hn.congr rfl

theorem plays_analyzeItems (op : List Node → Op) (form : Form) (items : List Form) (e : Env)
    (hcarries : ∀ nodes, (op nodes).carriesMetadata)
    (hop : ∀ nodes, (∀ n ∈ nodes, Plays .expression n) →
      Plays .expression (.of (op nodes) form e)) :
    Yields (analyzeItems recurse op form items e) (Plays .expression) := by
  unfold analyzeItems
  refine yields_bind (plays_analyzeAll hr _ _) fun nodes hs => ?_
  exact plays_wrapMetadata hr (hop nodes hs) (hcarries nodes)

theorem plays_analyzeEntries (e : Env) (entries : List (Form × Form)) :
    Yields (analyzeEntries recurse e entries) fun ns =>
      (∀ n ∈ ns.1, Plays .expression n) ∧ (∀ n ∈ ns.2, Plays .expression n) ∧
        ns.1.length = entries.length ∧ ns.2.length = entries.length := by
  induction entries with
  | nil => exact yields_pure ⟨nofun, nofun, rfl, rfl⟩
  | cons entry entries ih =>
    unfold analyzeEntries
    refine yields_bind (hr.plays _ _) fun key hk => ?_
    refine yields_bind (hr.plays _ _) fun val hv => ?_
    refine yields_bind ih fun ns hs => ?_
    obtain ⟨hkeys, hvals, hkeysLength, hvalsLength⟩ := hs
    exact yields_pure ⟨List.forall_mem_cons.mpr ⟨hk, hkeys⟩, List.forall_mem_cons.mpr ⟨hv, hvals⟩,
      congrArg (· + 1) hkeysLength, congrArg (· + 1) hvalsLength⟩

theorem plays_analyzeMap (form : Form) (entries : FormMap) (e : Env) :
    Yields (analyzeMap recurse form entries e) (Plays .expression) := by
  unfold analyzeMap
  refine yields_bind (plays_analyzeEntries hr _ _) fun ns hs => ?_
  obtain ⟨hkeys, hvals, hkeysLength, hvalsLength⟩ := hs
  have hlength : ns.1.length = ns.2.length := hkeysLength.trans hvalsLength.symm
  exact plays_wrapMetadata hr (.of_slots rfl hlength (.many hkeys (.many hvals .nil))) rfl

theorem nonemptyMap_analyzeMap {entries : FormMap} (h : entries ≠ []) (e : Env) :
    Yields (analyzeMap recurse (.map entries []) entries e) (·.op.IsNonemptyMap) := by
  unfold analyzeMap
  refine yields_bind (plays_analyzeEntries hr _ _) fun ns hs => ?_
  obtain ⟨-, -, hlength, -⟩ := hs
  refine yields_pure ⟨ns.1, ns.2, rfl, ?_⟩
  rw [ne_eq, ← List.length_eq_zero_iff, hlength, List.length_eq_zero_iff]
  exact h

theorem plays_branches (form : Form) (e : Env) (entries : List (Form × Form)) :
    Yields (Case.branches recurse form e entries) fun ns => ∀ n ∈ ns, Plays .branch n := by
  induction entries with
  | nil => exact yields_pure nofun
  | cons entry entries ih =>
    unfold Case.branches
    refine yields_bind yields_true fun pair _ => ?_
    refine yields_bind (hr.plays _ _) fun body hb => ?_
    refine yields_bind ih fun ns hs => ?_
    refine yields_pure (List.forall_mem_cons.mpr ⟨?_, hs⟩)
    exact .of_slots rfl ⟨_, rfl, rfl⟩ (.many (by simpa using .constant _ _) (.one hb .nil))

theorem plays_analyzeCase (form : Form) (args : List Form) (e : Env) :
    Yields (analyzeCase recurse form args e) (Plays .expression) := by
  unfold analyzeCase
  split
  · split
    · refine yields_bind yields_true fun _ _ => ?_
      refine yields_bind yields_true fun _ _ => ?_
      refine yields_bind yields_true fun _ _ => ?_
      refine yields_bind yields_true fun _ _ => ?_
      refine yields_bind yields_true fun _ _ => ?_
      refine yields_bind (hr.plays _ _) fun test ht => ?_
      refine yields_bind (plays_branches hr _ _ _) fun branches hs => ?_
      refine yields_bind (hr.plays _ _) fun default hd => ?_
      exact yields_pure (.of_slots rfl trivial (.one ht (.many hs (.one hd .nil))))
    · exact yields_fail _ _
  · exact yields_fail _ _

theorem plays_analyzeThrow (form : Form) (args : List Form) (e : Env) :
    Yields (analyzeThrow recurse form args e) (Plays .expression) := by
  unfold analyzeThrow
  split
  · refine yields_bind (hr.plays _ _) fun exception he => ?_
    exact yields_pure (.of_slots rfl trivial (.one he .nil))
  · exact yields_fail _ _

theorem plays_analyzeNew (form : Form) (args : List Form) (e : Env) :
    Yields (analyzeNew recurse form args e) (Plays .expression) := by
  unfold analyzeNew
  split
  · refine yields_bind (hr.plays _ _) fun cls hc => ?_
    refine yields_bind (plays_analyzeAll hr _ _) fun args ha => ?_
    exact yields_pure (.of_slots rfl trivial (.one hc (.many ha .nil)))
  · exact yields_fail _ _

theorem plays_analyzeAssign (form : Form) (args : List Form) (e : Env) :
    Yields (analyzeAssign recurse form args e) (Plays .expression) := by
  unfold analyzeAssign
  split
  · refine yields_bind (hr.plays _ _) fun target ht => ?_
    refine yields_bind (hr.plays _ _) fun val hv => ?_
    exact yields_pure (.of_slots rfl trivial (.one ht (.one hv .nil)))
  · exact yields_fail _ _

theorem plays_analyzeDot (form : Form) (args : List Form) (e : Env) :
    Yields (analyzeDot recurse form args e) (Plays .expression) := by
  unfold analyzeDot
  split
  · refine yields_bind (hr.plays _ _) fun target ht => ?_
    refine yields_bind yields_true fun member _ => ?_
    cases member with
    | field name => exact yields_pure (.of_slots rfl trivial (.one ht .nil))
    | access name => exact yields_pure (.of_slots rfl trivial (.one ht .nil))
    | call name args =>
      refine yields_bind (plays_analyzeAll hr _ _) fun args ha => ?_
      exact yields_pure (.of_slots rfl trivial (.one ht (.many ha .nil)))
  · exact yields_fail _ _

theorem plays_analyzeDef (form : Form) (args : List Form) (e : Env) :
    Yields (analyzeDef recurse form args e) (Plays .expression) := by
  unfold analyzeDef
  refine yields_bind yields_true fun d _ => ?_
  refine yields_bind yields_true fun var _ => ?_
  have hrest : ∀ metadata : Option Node, (∀ n ∈ metadata, Plays .expression n) →
      Yields (do
        let init ← d.init.mapM (recurse · (e.withContext .expr))
        return .of (.define var d.doc metadata init) form e) (Plays .expression) := by
    intro metadata hm
    refine yields_bind (yields_optionMapM fun f => hr.plays f _) fun init hi => ?_
    exact yields_pure (.of_slots rfl trivial (.append (.opt hm) (.opt hi)))
  dsimp only
  split
  · exact yields_bind (yields_pure (by simp)) hrest
  · refine yields_bind (yields_map (yields_mono (hr.plays _ _) fun n hn => ?_)) hrest
    simpa using hn

theorem plays_analyzeCatch (e : Env) (form : Form) :
    Yields (analyzeCatch recurse e form) (Plays .handler) := by
  unfold analyzeCatch
  split
  · split
    · split
      · refine yields_bind (hr.plays _ _) fun cls hc => ?_
        refine yields_bind (plays_analyzeBody hr _ _) fun body hb => ?_
        have hcaught (b : Binding) (hinit : b.init = none) (f : Form) (e : Env) :
            Plays .binding (.of (.binding b) f e) :=
          .of_slots rfl trivial (.opt (by simp [hinit]))
        refine yields_pure (.of_slots rfl ⟨_, rfl, rfl, rfl⟩ ?_)
        exact .one hc (.one (hcaught _ rfl _ _) (.one hb .nil))
      · exact yields_fail _ _
    · exact yields_fail _ _
  · exact yields_fail _ _

theorem plays_analyzeTry (form : Form) (args : List Form) (e : Env) :
    Yields (analyzeTry recurse form args e) (Plays .expression) := by
  unfold analyzeTry
  dsimp only
  split
  · exact yields_fail _ _
  · exact yields_fail _ _
  · refine yields_bind (plays_analyzeBody hr _ _) fun body hb => ?_
    refine yields_bind (yields_mapM fun f _ => plays_analyzeCatch hr _ f) fun catches hc => ?_
    refine yields_bind (yields_optionMapM fun f => plays_analyzeBody hr _ _) fun cleanup hf => ?_
    exact yields_pure (.of_slots rfl trivial (.one hb (.many hc (.opt hf))))

end Constructs

end LispFront
