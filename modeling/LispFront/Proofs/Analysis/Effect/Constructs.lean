import LispFront.Analysis.Branch
import LispFront.Analysis.Definition
import LispFront.Analysis.Exception
import LispFront.Analysis.Interop
import LispFront.Proofs.Analysis.Writes
import LispFront.Proofs.Tree.Definitions

/-!
# What constructs without binders write

If each part of a construct writes what its own node stands for, then so does the construct: every
analyzed part has one place in the tree, and the definition itself interns one var more.
-/

namespace LispFront

open AnalyzerM

/-- Whatever `recurse` gives stands for what was written on the way to it. -/
def Recurse.Tallied (ns : Symbol) (ρ : Symbol → Symbol) (recurse : Recurse) : Prop :=
  ∀ ⦃H : Prop⦄ f (e : Env), e.Kept ns ρ H →
    Writes ns (recurse f e) fun es n => Tallies ns ρ H es [n]

namespace Tallies

variable {ns : Symbol} {ρ : Symbol → Symbol} {H : Prop} {e : Env} (he : e.Kept ns ρ H)
include he

theorem leaf {op : Op} (form : Form) (hop : op.isPlain) (hchildren : op.children = []) :
    Tallies ns ρ H [] [.of op form e] := by
  refine node ?_ hop he
  have hbelow : (Node.of op form e).childNodes = [] := by
    unfold Node.childNodes Node.children
    exact congrArg (List.flatMap _) hchildren
  rw [hbelow]
  exact nil

theorem constant (f : Form) : Tallies ns ρ H [] [constant f e] := by
  refine node ?_ rfl he
  change Tallies ns ρ H [] ((Slot.metadata.opt (metadataConstant? _ _)).flatMap _)
  unfold metadataConstant?
  split
  · exact nil
  · exact leaf (e := e.withContext .expr) he _ rfl rfl

theorem binding {b : Binding} (hb : b.init = none) (written : Form) :
    Tallies ns ρ H [] [.of (.binding b) written e] :=
  leaf he written rfl (congrArg Slot.init.opt hb)

end Tallies

variable {ns : Symbol} {ρ : Symbol → Symbol} {H : Prop}

theorem writes_analyzeQuote (form : Form) (args : List Form) {e : Env} (he : e.Kept ns ρ H) :
    Writes ns (analyzeQuote form args e) fun es n => Tallies ns ρ H es [n] := by
  unfold analyzeQuote
  split
  · have hconst := Tallies.constant (e := e.withContext .expr) he
    exact writes_pure (.node ((hconst _).append .nil) rfl he)
  · exact writes_fail _ _

theorem writes_analyzeVar (form : Form) (args : List Form) {e : Env} (he : e.Kept ns ρ H) :
    Writes ns (analyzeVar form args e) fun es n => Tallies ns ρ H es [n] := by
  unfold analyzeVar
  split
  · split
    · refine writes_bind writes_directory ?_
      rintro _ d rfl
      split
      · exact writes_pure (.leaf he _ rfl rfl)
      · exact writes_fail _ _
    · exact writes_fail _ _
  · exact writes_fail _ _

theorem writes_mapM {f : Form → AnalyzerM Node} (forms : List Form)
    (hf : ∀ a, Writes ns (f a) fun es n => Tallies ns ρ H es [n]) :
    Writes ns (forms.mapM f) (Tallies ns ρ H) := by
  induction forms with
  | nil => exact writes_pure .nil
  | cons a forms ih =>
    rw [List.mapM_cons]
    refine writes_bind (hf a) fun es n hn => ?_
    refine writes_bind ih fun fs nodes hs => ?_
    refine writes_pure (hn.cons ?_)
    rwa [List.append_nil]

theorem writes_option {f : Form → AnalyzerM Node} (o : Option Form) (slot : Slot)
    (hf : ∀ a ∈ o, Writes ns (f a) fun es n => Tallies ns ρ H es [n]) :
    Writes ns (o.mapM f) fun es r =>
      Tallies ns ρ H es ((slot.opt r).flatMap fun c => c.2.nodes) := by
  cases o with
  | none => exact writes_pure .nil
  | some a =>
    rw [Option.mapM_some]
    exact writes_map (hf a rfl)

theorem writes_docAndInit (form : Form) (args rest : List Form) :
    Writes ns (Definition.docAndInit form args rest) fun es _ => es = [] := by
  unfold Definition.docAndInit
  split
  · exact writes_pure rfl
  · exact writes_pure rfl
  · exact writes_pure rfl
  · exact writes_fail _ _
  · exact writes_fail _ _

theorem writes_definition (form : Form) (args : List Form) (e : Env) :
    Writes ns (Definition.ofArgs form args e) fun es _ => es = [] := by
  unfold Definition.ofArgs
  split
  · exact writes_fail _ _
  · split
    · refine writes_bind (writes_docAndInit _ _ _) ?_
      rintro _ r rfl
      exact writes_pure rfl
    · exact writes_fail _ _
  · exact writes_fail _ _

section Constructs

variable {recurse : Recurse} (hr : recurse.Tallied ns ρ)
include hr

theorem writes_analyzeAll (forms : List Form) {e : Env} (he : e.Kept ns ρ H) :
    Writes ns (analyzeAll recurse forms e) (Tallies ns ρ H) :=
  writes_mapM forms fun f => hr f e he

theorem writes_analyzeIf (form : Form) (args : List Form) {e : Env} (he : e.Kept ns ρ H) :
    Writes ns (analyzeIf recurse form args e) fun es n => Tallies ns ρ H es [n] := by
  unfold analyzeIf
  split
  · refine writes_bind (hr _ _ he) fun _ test ht => ?_
    refine writes_bind (hr _ _ he) fun _ onTrue ha => ?_
    exact writes_pure (.node (ht.cons (ha.cons (.constant he _))) rfl he)
  · refine writes_bind (hr _ _ he) fun _ test ht => ?_
    refine writes_bind (hr _ _ he) fun _ onTrue ha => ?_
    refine writes_bind (hr _ _ he) fun _ onFalse hb => ?_
    exact writes_pure (.node (ht.cons (ha.cons (hb.cons .nil))) rfl he)
  · exact writes_fail _ _

theorem writes_analyzeSequence (form : Form) (exprs : List Form) {e : Env} (body : Bool)
    (he : e.Kept ns ρ H) :
    Writes ns (analyzeSequence recurse form exprs e body) fun es n => Tallies ns ρ H es [n] := by
  unfold analyzeSequence
  split
  · exact writes_pure (.node (.constant he _) rfl he)
  · refine writes_bind (writes_analyzeAll hr _ he) fun _ statements hs => ?_
    refine writes_bind (hr _ _ he) fun _ ret ht => ?_
    exact writes_pure (.node (hs.append (ht.cons .nil)) rfl he)

theorem writes_analyzeBody (exprs : List Form) {e : Env} (he : e.Kept ns ρ H) :
    Writes ns (analyzeBody recurse exprs e) fun es n => Tallies ns ρ H es [n] :=
  writes_analyzeSequence hr _ exprs true he

theorem writes_wrapMetadata {es : List Effect} {n : Node} (hn : Tallies ns ρ H es [n])
    (he : n.env.Kept ns ρ H) :
    Writes ns (wrapMetadata recurse n) fun fs m => Tallies ns ρ H (es ++ fs) [m] := by
  unfold wrapMetadata
  dsimp only
  split
  · exact writes_pure (by rwa [List.append_nil])
  · refine writes_bind (hr _ _ he) fun fs metadata hm => ?_
    have hinner : Tallies ns ρ H es [{ n with env := n.env.withContext .expr }] :=
      hn.congr rfl (he.mono And.left)
    have hboth := (hm.cons hinner).reorder List.perm_append_comm (.refl _)
    refine writes_pure ?_
    rw [List.append_nil]
    exact .node hboth rfl he

theorem writes_analyzeItems (op : List Node → Op) (form : Form) (items : List Form) {e : Env}
    (he : e.Kept ns ρ H) (hop : ∀ nodes, (op nodes).isPlain)
    (hchildren : ∀ nodes, (op nodes).children = [(.items, .many nodes)]) :
    Writes ns (analyzeItems recurse op form items e) fun es n => Tallies ns ρ H es [n] := by
  unfold analyzeItems
  refine writes_bind (writes_analyzeAll hr _ he) fun es nodes hs => ?_
  have hbelow : Tallies ns ρ H es (Node.of (op nodes) form e).childNodes := by
    change Tallies ns ρ H es ((op nodes).children.flatMap _)
    rw [hchildren]
    exact hs.reorder (.refl _) (by simp [Child.nodes])
  exact writes_wrapMetadata hr (.node hbelow (hop nodes) he) he

theorem writes_analyzeEntries (entries : List (Form × Form)) {e : Env} (he : e.Kept ns ρ H) :
    Writes ns (analyzeEntries recurse e entries) fun es r => Tallies ns ρ H es (r.1 ++ r.2) := by
  induction entries with
  | nil => exact writes_pure .nil
  | cons entry entries ih =>
    unfold analyzeEntries
    refine writes_bind (hr _ _ he) fun es key hk => ?_
    refine writes_bind (hr _ _ he) fun fs val hv => ?_
    refine writes_bind ih fun gs r hs => ?_
    obtain ⟨keys, vals⟩ := r
    refine writes_pure ((hk.cons (hv.cons hs)).reorder (by simp) ?_)
    exact .cons key List.perm_middle.symm

theorem writes_analyzeMap (form : Form) (entries : FormMap) {e : Env} (he : e.Kept ns ρ H) :
    Writes ns (analyzeMap recurse form entries e) fun es n => Tallies ns ρ H es [n] := by
  unfold analyzeMap
  refine writes_bind (writes_analyzeEntries hr _ he) fun es r hs => ?_
  obtain ⟨keys, vals⟩ := r
  have hn : Tallies ns ρ H es [.of (.map keys vals) form e] :=
    .node (hs.reorder (.refl _) (by simp [Node.childNodes, Node.children, Node.of, Op.children,
      Child.nodes])) rfl he
  exact writes_wrapMetadata hr hn he

theorem writes_branches (form : Form) (entries : List (Form × Form)) {e : Env}
    (he : e.Kept ns ρ H) :
    Writes ns (Case.branches recurse form e entries) (Tallies ns ρ H) := by
  induction entries with
  | nil => exact writes_pure .nil
  | cons entry entries ih =>
    unfold Case.branches
    refine writes_bind (writes_check _ _) ?_
    rintro _ pair ⟨rfl, -⟩
    refine writes_bind (hr _ _ he) fun es body hb => ?_
    refine writes_bind ih fun fs nodes hs => ?_
    have hconst := Tallies.constant (e := e.withContext .expr) he pair.1
    have hbranch := Tallies.node (n := .of (.caseBranch [_] body) entry.2 e)
      (hconst.cons (hb.cons .nil)) rfl he
    refine writes_pure ((hbranch.cons hs).reorder (by simp) (.refl _))

theorem writes_analyzeCase (form : Form) (args : List Form) {e : Env} (he : e.Kept ns ρ H) :
    Writes ns (analyzeCase recurse form args e) fun es n => Tallies ns ρ H es [n] := by
  unfold analyzeCase
  split
  · split
    · refine writes_bind (writes_check _ _) ?_
      rintro _ shift ⟨rfl, -⟩
      refine writes_bind (writes_check _ _) ?_
      rintro _ mask ⟨rfl, -⟩
      refine writes_bind (writes_check _ _) ?_
      rintro _ entries ⟨rfl, -⟩
      refine writes_bind (writes_check _ _) ?_
      rintro _ switch ⟨rfl, -⟩
      refine writes_bind (writes_check _ _) ?_
      rintro _ tests ⟨rfl, -⟩
      refine writes_bind (hr _ _ he) fun _ test ht => ?_
      refine writes_bind (writes_branches hr _ _ he) fun _ branches hs => ?_
      refine writes_bind (hr _ _ he) fun _ default hd => ?_
      exact writes_pure (.node (ht.cons (hs.append (hd.cons .nil))) rfl he)
    · exact writes_fail _ _
  · exact writes_fail _ _

theorem writes_analyzeThrow (form : Form) (args : List Form) {e : Env} (he : e.Kept ns ρ H) :
    Writes ns (analyzeThrow recurse form args e) fun es n => Tallies ns ρ H es [n] := by
  unfold analyzeThrow
  split
  · refine writes_bind (hr _ _ he) fun _ exception hx => ?_
    exact writes_pure (.node (hx.cons .nil) rfl he)
  · exact writes_fail _ _

theorem writes_analyzeNew (form : Form) (args : List Form) {e : Env} (he : e.Kept ns ρ H) :
    Writes ns (analyzeNew recurse form args e) fun es n => Tallies ns ρ H es [n] := by
  unfold analyzeNew
  split
  · refine writes_bind (hr _ _ he.withoutLocals) fun _ cls hc => ?_
    refine writes_bind (writes_analyzeAll hr _ he) fun _ args ha => ?_
    exact writes_pure (.node (hc.cons (ha.append .nil)) rfl he)
  · exact writes_fail _ _

theorem writes_analyzeAssign (form : Form) (args : List Form) {e : Env} (he : e.Kept ns ρ H) :
    Writes ns (analyzeAssign recurse form args e) fun es n => Tallies ns ρ H es [n] := by
  unfold analyzeAssign
  split
  · refine writes_bind (hr _ _ he) fun _ target ht => ?_
    refine writes_bind (hr _ _ he) fun _ val hv => ?_
    exact writes_pure (.node (ht.cons (hv.cons .nil)) rfl he)
  · exact writes_fail _ _

theorem writes_analyzeDot (form : Form) (args : List Form) {e : Env} (he : e.Kept ns ρ H) :
    Writes ns (analyzeDot recurse form args e) fun es n => Tallies ns ρ H es [n] := by
  unfold analyzeDot
  split
  · refine writes_bind (hr _ _ he) fun _ target ht => ?_
    refine writes_bind (writes_check _ _) ?_
    rintro _ member ⟨rfl, -⟩
    cases member with
    | field name => exact writes_pure (.node (ht.cons .nil) rfl he)
    | access name => exact writes_pure (.node (ht.cons .nil) rfl he)
    | call name args =>
      refine writes_bind (writes_analyzeAll hr _ he) fun _ args ha => ?_
      exact writes_pure (.node (ht.cons (ha.append .nil)) rfl he)
  · exact writes_fail _ _

theorem writes_analyzeDef (form : Form) (args : List Form) {e : Env} (he : e.Kept ns ρ H) :
    Writes ns (analyzeDef recurse form args e) fun es n => Tallies ns ρ H es [n] := by
  unfold analyzeDef
  refine writes_bind (writes_definition _ _ _) ?_
  rintro _ d rfl
  rw [he.1]
  refine writes_bind (writes_intern _ _ _) ?_
  rintro _ var rfl
  have hrest : ∀ gs (metadata : Option Node),
      Tallies ns ρ H gs ((Slot.metadata.opt metadata).flatMap fun c => c.2.nodes) →
      Writes ns (do
        let init ← d.init.mapM (recurse · (e.withContext .expr))
        return .of (.define var d.doc metadata init) form e) fun fs n =>
          Tallies ns ρ H ([.intern var] ++ (gs ++ fs)) [n] := by
    intro gs metadata hm
    refine writes_bind (writes_option d.init .init fun f _ => hr f _ he) fun fs init hi => ?_
    refine writes_pure ?_
    rw [List.append_nil]
    refine .effect (.mono ?_ And.left) rfl (he.mono And.left) fun _ _ => trivial
    change Tallies ns ρ H _ ((Slot.metadata.opt metadata ++ Slot.init.opt init).flatMap _)
    rw [List.flatMap_append]
    exact hm.append hi
  let p (gs : List Effect) (metadata : Option Node) : Prop :=
    Tallies ns ρ H gs ((Slot.metadata.opt metadata).flatMap fun c => c.2.nodes)
  dsimp only
  split
  · exact writes_bind (p := p) (writes_pure .nil) hrest
  · exact writes_bind (p := p) (writes_map (hr _ _ he)) hrest

theorem writes_analyzeCatch (form : Form) {e : Env} (he : e.Kept ns ρ H) :
    Writes ns (analyzeCatch recurse e form) fun es n => Tallies ns ρ H es [n] := by
  unfold analyzeCatch
  split
  · split
    · rename_i name m _
      split
      · have houter := Env.Kept.withoutLocals (e := e.leaveTry) he
        refine writes_bind (hr _ _ houter) fun _ cls hc => ?_
        have hinner := Env.Kept.bind (e := e.leaveTry) (b := { name, kind := .catch }) he fun _ => rfl
        refine writes_bind (writes_analyzeBody hr _ hinner) fun _ body hb => ?_
        have hcaught : Tallies ns ρ H []
            [.of (.binding { name, kind := .catch }) (.symbol name m) e.leaveTry.withoutLocals] :=
          Tallies.binding houter rfl _
        exact writes_pure (.node (hc.cons (hcaught.cons (hb.cons .nil))) rfl he)
      · exact writes_fail _ _
    · exact writes_fail _ _
  · exact writes_fail _ _

theorem writes_analyzeTry (form : Form) (args : List Form) {e : Env} (he : e.Kept ns ρ H) :
    Writes ns (analyzeTry recurse form args e) fun es n => Tallies ns ρ H es [n] := by
  unfold analyzeTry
  dsimp only
  split
  · exact writes_fail _ _
  · exact writes_fail _ _
  · refine writes_bind (writes_analyzeBody hr _ he) fun es body hb => ?_
    refine writes_bind (writes_mapM _ fun f => writes_analyzeCatch hr f he) fun fs catches hc => ?_
    refine writes_bind (writes_option _ .finally fun f _ => writes_analyzeBody hr _ he)
      fun gs cleanup hf => ?_
    refine writes_pure (.node ?_ rfl he)
    rw [List.append_nil]
    exact hb.cons (hc.append hf)

end Constructs

end LispFront
