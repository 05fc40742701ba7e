import LispFront.Proofs.Analysis.Levels
import LispFront.Proofs.Analysis.Relational.Binders

/-!
# A level of two analyses side by side

If two analyzers expand forms alike and look up names alike, then one level of their analyses
corresponds as soon as the levels below do. The induction over levels is left to whoever knows how
the depths of the two analyses compare.
-/

namespace LispFront

open AnalyzerM Correspondence
open List (Forall₂)

def Form.isExpandable : Form → Bool
  | .symbol .. => true
  | .list es _ => !es.isEmpty
  | _ => false

def Form.isExpanded : Form → Bool
  | .symbol .. => true
  | .list (.nil :: _) _ => false
  | .list (_ :: _) _ => true
  | _ => false

namespace Correspondence

variable (C : Correspondence)

def Expands (a a' : Analyzer) : Prop :=
  ∀ f f' e e', C.form f f' → e.Like C e' → C.Relates (a.expansion f e) (a'.expansion f' e') C.form

def LooksUp (a a' : Analyzer) : Prop :=
  ∀ s m m' e e', C.form (.symbol s m) (.symbol s m') → e.Like C e' →
    C.Relates (a.analyzeName (.symbol s m) s e) (a'.analyzeName (.symbol s m') s e') C.node

end Correspondence

variable {C : Correspondence} (hC : C.Lawful) {a a' : Analyzer} {form form' : Form} {e e' : Env}
include hC

theorem relates_analyzeName (hagrees : C.Agrees) (hclasses : a.checkClasses = a'.checkClasses)
    (s : Symbol) (hf : C.form form form') (he : e.Like C e') :
    C.Relates (a.analyzeName form s e) (a'.analyzeName form' s e') (C.Built form form') := by
  have hlocal := he.local? s
  unfold Analyzer.analyzeName
  generalize e.local? s = b at hlocal ⊢
  generalize e'.local? s = b' at hlocal ⊢
  cases hlocal with
  | some hb => exact relates_pure (.of (.localRef hb.withoutInit) he)
  | none =>
    refine relates_bind relates_directory ?_
    rintro _ _ ⟨t, t', hst, rfl, rfl⟩
    have hvar := hagrees.resolve e.ns s hst
    rw [← he.ns, ← hclasses, ← hagrees.isClass s hst]
    generalize t.view.resolve? e.ns s = v at hvar ⊢
    generalize t'.view.resolve? e.ns s = v' at hvar ⊢
    cases hvar with
    | some hv => exact relates_pure (.of (.varRef hv) he)
    | none =>
      cases s.ns with
      | some cls => exact relates_pure (.of (.hostForm _ _) he)
      | none =>
        dsimp only
        split
        · exact relates_pure (.of (.classRef _) he)
        · exact relates_fail_same hC hf

theorem looksUp_of_checkClasses (hagrees : C.Agrees) (hclasses : a.checkClasses = a'.checkClasses) :
    C.LooksUp a a' := fun s _ _ _ _ hf he =>
  relates_mono (relates_analyzeName hC hagrees hclasses s hf he) fun _ _ hn => hn.node hC hf

variable {recurse recurse' : Recurse} (hr : C.Recurses recurse recurse') (hf : C.form form form')
  (he : e.Like C e')
include hr hf he

theorem relates_analyzeExpansion {g g' : Form} (hg : C.form g g') :
    C.Relates (Analyzer.analyzeExpansion recurse form g e)
      (Analyzer.analyzeExpansion recurse' form' g' e') C.node := by
  unfold Analyzer.analyzeExpansion
  refine relates_bind (hr _ _ _ _ hg he) fun n n' hn => ?_
  exact relates_pure (hC.expandedFrom hn hf)

section Call

variable {head head' : Form} {args args' : List Form} (hhead : C.form head head')
  (hargs : Forall₂ C.form args args')
include hhead hargs

theorem relates_analyzeInvoke :
    C.Relates (Analyzer.analyzeInvoke recurse form head args e)
      (Analyzer.analyzeInvoke recurse' form' head' args' e') (C.Built form form') := by
  have hexpr := he.withContext .expr
  unfold Analyzer.analyzeInvoke
  refine relates_bind (hr _ _ _ _ hhead hexpr) fun fn fn' hfn => ?_
  refine relates_bind (relates_analyzeAll hargs hexpr hr) fun args args' hs => ?_
  exact relates_pure (.of (.invoke hfn hs (hC.semanticMetadata hf)) he)

theorem relates_analyzeCall :
    C.Relates (Analyzer.analyzeCall recurse form head args e)
      (Analyzer.analyzeCall recurse' form' head' args' e') (C.Built form form') := by
  have hspecial : SpecialForm.ofHead? head = SpecialForm.ofHead? head' := by
    cases hC.matches_of hhead <;> rfl
  unfold Analyzer.analyzeCall
  rw [hspecial]
  split
  · exact relates_analyzeInvoke hC hr hf he hhead hargs
  · exact relates_analyzeSequence hC hargs he hr false
  · exact relates_analyzeIf hC hf hargs he hr
  · exact relates_analyzeNew hC hf hargs he hr
  · exact relates_analyzeQuote hC hf hargs he
  · exact relates_analyzeAssign hC hf hargs he hr
  · exact relates_analyzeTry hC hargs he hr
  · exact relates_analyzeThrow hC hf hargs he hr
  · exact relates_analyzeDef hC hf hargs he hr
  · exact relates_analyzeDot hC hf hargs he hr
  · exact relates_analyzeLet hC hf hargs he hr
  · exact relates_analyzeLetfn hC hf hargs he hr
  · exact relates_analyzeLoop hC hf hargs he hr
  · exact relates_analyzeRecur hC hf hargs he hr
  · exact relates_analyzeFn hC hf hargs he hr hhead
  · exact relates_analyzeVar hC hf hargs he
  · exact relates_analyzeCase hC hf hargs he hr

end Call

theorem relates_unexpandable (hatom : form.isExpandable = false) :
    C.Relates (a.analyzeLevel recurse form e) (a'.analyzeLevel recurse' form' e')
      (C.Built form form') := by
  unfold Analyzer.analyzeLevel
  cases hC.matches_of hf with
  | symbol s m m' => cases hatom
  | list m m' hes =>
    cases hes with
    | nil => exact relates_pure (hC.constant_built hf he)
    | cons _ _ => cases hatom
  | vector m m' hes => exact relates_analyzeItems hC hf hes he hr fun _ _ hs => .vector hs
  | map m m' hes => exact relates_analyzeMap hC hf he hr hes
  | set m m' hes => exact relates_analyzeItems hC hf hes he hr fun _ _ hs => .set hs
  | _ => exact relates_pure (hC.constant_built hf he)

variable (hexpand : C.Expands a a')
include hexpand

theorem relates_analyzeList {head head' : Form} {args args' : List Form}
    (hhead : C.form head head') (hargs : Forall₂ C.form args args') :
    C.Relates (a.analyzeList recurse form head args e)
      (a'.analyzeList recurse' form' head' args' e') C.node := by
  have hrest : C.Relates
      (do
        let expansion ← a.expansion form e
        within form <|
          if expansion == form then Analyzer.analyzeCall recurse form head args e
          else Analyzer.analyzeExpansion recurse form expansion e)
      (do
        let expansion ← a'.expansion form' e'
        within form' <|
          if expansion == form' then Analyzer.analyzeCall recurse' form' head' args' e'
          else Analyzer.analyzeExpansion recurse' form' expansion e')
      C.node := by
    refine relates_bind (hexpand _ _ _ _ hf he) fun g g' hg => ?_
    refine relates_within hC ?_ hf
    rw [hC.beq_eq hg hf]
    split
    · exact relates_mono (relates_analyzeCall hC hr hf he hhead hargs) fun _ _ hn => hn.node hC hf
    · exact relates_analyzeExpansion hC hr hf he hg
  unfold Analyzer.analyzeList
  cases hC.matches_of hhead with
  | nil => exact relates_fail_same hC hf
  | _ => exact hrest

variable (hname : C.LooksUp a a')
include hname

omit hf in
theorem relates_analyzeSymbol {s : Symbol} {m m' : FormMap}
    (hf : C.form (.symbol s m) (.symbol s m')) :
    C.Relates (a.analyzeSymbol recurse (.symbol s m) s e)
      (a'.analyzeSymbol recurse' (.symbol s m') s e') C.node := by
  unfold Analyzer.analyzeSymbol
  refine relates_bind (hexpand _ _ _ _ hf he) fun g g' hg => ?_
  rw [hC.beq_eq hg hf]
  split
  · exact hname _ _ _ _ _ hf he
  · exact relates_analyzeExpansion hC hr hf he hg

theorem relates_analyzeLevel :
    C.Relates (a.analyzeLevel recurse form e) (a'.analyzeLevel recurse' form' e') C.node := by
  cases hatom : form.isExpandable with
  | false => exact relates_mono (relates_unexpandable hC hr hf he hatom) fun _ _ hn => hn.node hC hf
  | true =>
    cases hC.matches_of hf with
    | symbol s m m' => exact relates_analyzeSymbol hC hr he hexpand hname hf
    | list m m' hes =>
      cases hes with
      | nil => cases hatom
      | cons hhead hargs => exact relates_analyzeList hC hr hf he hexpand hhead hargs
    | _ => cases hatom

end LispFront
