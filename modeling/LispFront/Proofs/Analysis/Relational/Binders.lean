import LispFront.Analysis.Binder
import LispFront.Analysis.Function
import LispFront.Proofs.Analysis.Relational.Constructs

/-!
# Binding constructs side by side

Corresponding binding forms bind the same names, in the same order, to corresponding values.
-/

namespace LispFront

open AnalyzerM Correspondence
open List (Forall₂)

variable {C : Correspondence}

structure BindingPair.Like (C : Correspondence) (p p' : BindingPair) : Prop where
  written : C.form p.written p'.written
  name : p.name = p'.name
  init : C.form p.init p'.init

structure Params.Like (C : Correspondence) (p p' : Params) : Prop where
  fixed : Forall₂ C.form p.fixed p'.fixed
  variadic : Option.Rel C.form p.variadic p'.variadic

section Read

variable (hC : C.Lawful)
include hC

theorem relates_bindingNode {p p' : BindingPair} {b b' : Binding} {e e' : Env} (hp : p.Like C p')
    (hb : b.Like C b') (he : e.Like C e') : C.node (p.bindingNode b e) (p'.bindingNode b' e') :=
  hC.node (.binding hb) hp.written he

theorem relates_ofForms {forms forms' : List Form} (hforms : Forall₂ C.form forms forms') :
    C.Relates (BindingPair.ofForms forms) (BindingPair.ofForms forms')
      (Forall₂ (BindingPair.Like C)) := by
  rcases hforms with _ | ⟨hwritten, _ | ⟨hinit, hrest⟩⟩
  · exact relates_pure .nil
  · exact relates_pure .nil
  · unfold BindingPair.ofForms
    cases hC.matches_of hwritten with
    | symbol name m m' =>
      dsimp only
      split
      · refine relates_bind (relates_ofForms hrest) fun pairs pairs' hs => ?_
        exact relates_pure (.cons ⟨hwritten, rfl, hinit⟩ hs)
      · exact relates_fail hC (.badBinding hwritten) hwritten
    | _ => exact relates_fail hC (.badBinding hwritten) hwritten
termination_by forms.length

variable {form form' : Form} {args args' : List Form} (hf : C.form form form')
  (hargs : Forall₂ C.form args args')
include hargs

theorem related_methodForms : Forall₂ C.form (methodForms args) (methodForms args') := by
  cases hargs with
  | nil => exact .nil
  | cons hhead hrest =>
    cases hC.matches_of hhead with
    | vector m m' hes => exact .cons (hC.list (.cons hhead hrest)) .nil
    | _ => exact .cons hhead hrest

include hf

theorem relates_ofArgs (op : String) :
    C.Relates (BindingPair.ofArgs op form args) (BindingPair.ofArgs op form' args') fun r r' =>
      Forall₂ (BindingPair.Like C) r.1 r'.1 ∧ Forall₂ C.form r.2 r'.2 := by
  cases hargs with
  | nil => exact relates_fail_same hC hf
  | cons hhead hrest =>
    cases hC.matches_of hhead with
    | vector m m' hes =>
      unfold BindingPair.ofArgs
      dsimp only
      rw [hes.length_eq]
      split
      · refine relates_bind (relates_ofForms hC hes) fun pairs pairs' hs => ?_
        exact relates_pure ⟨hs, hrest⟩
      · exact relates_fail_same hC hhead
    | _ => exact relates_fail hC (.bindingsNotVector op hhead) hf

theorem relates_functionName :
    C.Relates (functionName form args) (functionName form' args') fun r r' =>
      Option.Rel (fun s s' => C.form s.1 s'.1 ∧ s.2.Like C s'.2) r.1 r'.1 ∧
        Forall₂ C.form r.2 r'.2 := by
  cases hargs with
  | nil => exact relates_pure ⟨.none, .nil⟩
  | cons hhead hrest =>
    cases hC.matches_of hhead with
    | symbol name m m' =>
      unfold functionName
      dsimp only
      split
      · exact relates_pure ⟨.some ⟨hhead, .of_init rfl⟩, hrest⟩
      · exact relates_fail hC (.badBinding hhead) hf
    | _ => exact relates_pure ⟨.none, .cons hhead hrest⟩

end Read

namespace Params

variable (hC : C.Lawful)

theorem Like.all {p p' : Params} (h : p.Like C p') : Forall₂ C.form p.all p'.all := by
  obtain ⟨fixed, variadic⟩ := p
  obtain ⟨fixed', variadic'⟩ := p'
  obtain ⟨hfixed, hvariadic⟩ := h
  refine List.rel_append hfixed ?_
  cases hvariadic with
  | none => exact .nil
  | some hv => exact .cons hv .nil

theorem Like.isSome_eq {p p' : Params} (h : p.Like C p') :
    p.variadic.isSome = p'.variadic.isSome := by
  obtain ⟨fixed, variadic⟩ := p
  obtain ⟨fixed', variadic'⟩ := p'
  obtain ⟨-, hvariadic⟩ := h
  cases hvariadic with
  | none => rfl
  | some _ => rfl

include hC

theorem isAmpersand_eq {f f' : Form} (hf : C.form f f') : isAmpersand f = isAmpersand f' := by
  cases hC.matches_of hf <;> rfl

variable {elems elems' : List Form} (h : Forall₂ C.form elems elems')
include h

theorem related_split : C.Checked (Params.Like C) (split elems) (split elems') := by
  have hnot := fun f f' (hf : C.form f f') => congrArg Bool.not (isAmpersand_eq hC hf)
  have hfixed := related_takeWhile hnot h
  have hrest := related_dropWhile hnot h
  unfold split
  dsimp only
  generalize elems.dropWhile (!isAmpersand ·) = rest at hrest ⊢
  generalize elems'.dropWhile (!isAmpersand ·) = rest' at hrest ⊢
  cases hrest with
  | nil => exact .ok ⟨hfixed, .none⟩
  | cons _ hrest =>
    dsimp only
    rw [related_any (fun f f' hf => isAmpersand_eq hC hf) hrest]
    split
    · exact .error (.same _)
    · rw [hrest.length_eq]
      rcases hrest with _ | ⟨hp, _ | ⟨_, _⟩⟩
      · exact .error (.same _)
      · exact .ok ⟨hfixed, .some hp⟩
      · exact .error (.same _)

theorem related_bindings (variadic : Bool) (i : Nat) :
    C.Checked (Forall₂ (Binding.Like C)) (bindings variadic i elems)
      (bindings variadic i elems') := by
  induction h generalizing i with
  | nil => exact .ok .nil
  | cons hp hps ih =>
    unfold bindings
    cases hC.matches_of hp with
    | symbol name m m' =>
      dsimp only
      rw [related_isEmpty hps]
      split
      · have hrest := ih (i + 1)
        revert hrest
        generalize bindings variadic (i + 1) _ = r
        generalize bindings variadic (i + 1) _ = r'
        intro hrest
        cases hrest with
        | ok hbs => exact .ok (.cons (.of_init rfl) hbs)
        | error hfault => exact .error hfault
      · exact .error (.badParam hp)
    | _ => exact .error (.badParam hp)

end Params

theorem related_firstRepeated? {pairs pairs' : List BindingPair}
    (h : Forall₂ (BindingPair.Like C) pairs pairs') (seen : List Symbol) :
    Option.Rel (BindingPair.Like C) (firstRepeated? seen pairs) (firstRepeated? seen pairs') := by
  induction h generalizing seen with
  | nil => exact .none
  | cons hp _ ih =>
    unfold firstRepeated?
    rw [hp.name]
    split
    · exact .some hp
    · exact ih _

section Binders

variable (hC : C.Lawful) {form form' : Form} {args args' : List Form} {e e' : Env}
  (hf : C.form form form') (hargs : Forall₂ C.form args args') (he : e.Like C e')
  {recurse recurse' : Recurse} (hr : C.Recurses recurse recurse')
include hC he hr

theorem relates_bindInTurn (kind : LocalKind) {pairs pairs' : List BindingPair}
    (h : Forall₂ (BindingPair.Like C) pairs pairs') :
    C.Relates (bindInTurn recurse kind pairs e) (bindInTurn recurse' kind pairs' e') fun r r' =>
      Forall₂ C.node r.1 r'.1 ∧ r.2.Like C r'.2 := by
  induction h generalizing e e' with
  | nil => exact relates_pure ⟨.nil, he⟩
  | @cons p p' ps ps' hp _ ih =>
    unfold bindInTurn
    refine relates_bind (hr _ _ _ _ hp.init (he.withContext .expr)) fun init init' hi => ?_
    have hb : Binding.Like C { name := p.name, kind, init }
      { name := p'.name, kind, init := init' } :=
      ⟨hp.name, rfl, .some hi, rfl, rfl, rfl⟩
    refine relates_bind (ih (he.bind hb)) fun r r' hs => ?_
    exact relates_pure ⟨.cons (relates_bindingNode hC hp hb he) hs.1, hs.2⟩

omit hC in
theorem relates_letfnBindings {pairs pairs' : List BindingPair}
    (h : Forall₂ (BindingPair.Like C) pairs pairs') :
    C.Relates (letfnBindings recurse e pairs) (letfnBindings recurse' e' pairs')
      (Forall₂ fun r r' => r.1.Like C r'.1 ∧ r.2.Like C r'.2) := by
  induction h with
  | nil => exact relates_pure .nil
  | cons hp _ ih =>
    unfold letfnBindings
    refine relates_bind (hr _ _ _ _ hp.init (he.withContext .expr)) fun init init' hi => ?_
    refine relates_bind ih fun bound bound' hs => ?_
    exact relates_pure (.cons ⟨hp, hp.name, rfl, .some hi, rfl, rfl, rfl⟩ hs)

include hf

theorem relates_analyzeMethod :
    C.Relates (analyzeMethod recurse e form) (analyzeMethod recurse' e' form') fun n n' =>
      C.node n n' ∧ n.methodArity = n'.methodArity := by
  cases hC.matches_of hf with
  | list m m' hes =>
    cases hes with
    | nil => exact relates_fail hC (.paramsNotVector hC.nil) hf
    | cons hhead hexprs =>
      cases hC.matches_of hhead with
      | vector m m' helems =>
        unfold analyzeMethod
        refine relates_bind (relates_check hC (Params.related_split hC helems) hf)
          fun params params' hp => ?_
        rw [hp.isSome_eq]
        refine relates_bind (relates_check hC (Params.related_bindings hC hp.all _ 0) hf)
          fun bs bs' hbs => ?_
        refine relates_bind (relates_drawLoopId hC) fun id id' hid => ?_
        have hinner := he.withoutSelf
        have hnodes : Forall₂ C.node
            ((params.all.zip bs).map fun r => .of (.binding r.2) r.1 e.withoutSelf)
            ((params'.all.zip bs').map fun r => .of (.binding r.2) r.1 e'.withoutSelf) :=
          List.rel_map (fun _ _ h => hC.node (.binding h.2) h.1 hinner) (related_zip hp.all hbs)
        have hbody := ((hinner.bindMany hbs).withContext .ret).withLoop hid hnodes.length_eq
        refine relates_bind (relates_analyzeBody hC hexprs hbody hr) fun body body' hb => ?_
        rw [hp.fixed.length_eq]
        exact relates_pure ⟨hC.node (.method _ _ hid hnodes hb he.self) hf hinner, rfl⟩
      | _ => exact relates_fail hC (.paramsNotVector hhead) hf
  | _ => exact relates_fail hC (.methodNotList hf) hf

include hargs

theorem relates_analyzeLet :
    C.Relates (analyzeLet recurse form args e) (analyzeLet recurse' form' args' e')
      (C.Built form form') := by
  unfold analyzeLet
  refine relates_bind (relates_ofArgs hC hf hargs "let*") fun r r' hr₁ => ?_
  refine relates_bind (relates_bindInTurn hC he hr .let hr₁.1) fun r₂ r₂' hs => ?_
  refine relates_bind (relates_analyzeBody hC hr₁.2 hs.2 hr) fun body body' hb => ?_
  exact relates_pure (.of (.letBlock hs.1 hb) he)

theorem relates_analyzeLoop :
    C.Relates (analyzeLoop recurse form args e) (analyzeLoop recurse' form' args' e')
      (C.Built form form') := by
  unfold analyzeLoop
  refine relates_bind (relates_drawLoopId hC) fun id id' hid => ?_
  refine relates_bind (relates_ofArgs hC hf hargs "loop*") fun r r' hr₁ => ?_
  refine relates_bind (relates_bindInTurn hC (he.withLoopId hid) hr .loop hr₁.1)
    fun r₂ r₂' hs => ?_
  have hbody := ((hs.2.withContext .ret).withLoop hid hs.1.length_eq).leaveTry
  refine relates_bind (relates_analyzeBody hC hr₁.2 hbody hr) fun body body' hb => ?_
  exact relates_pure (.of (.loop hid hs.1 hb) (he.withLoopId hid))

theorem relates_analyzeLetfn :
    C.Relates (analyzeLetfn recurse form args e) (analyzeLetfn recurse' form' args' e')
      (C.Built form form') := by
  unfold analyzeLetfn
  refine relates_bind (relates_ofArgs hC hf hargs "letfn*") fun r r' hr₁ => ?_
  obtain ⟨pairs, exprs⟩ := r
  obtain ⟨pairs', exprs'⟩ := r'
  obtain ⟨hpairs, hexprs⟩ := hr₁
  have hrepeated := related_firstRepeated? hpairs []
  dsimp only
  generalize firstRepeated? [] pairs = o at hrepeated ⊢
  generalize firstRepeated? [] pairs' = o' at hrepeated ⊢
  cases hrepeated with
  | some hp =>
    dsimp only
    rw [hp.name]
    exact relates_fail_same hC hp.written
  | none =>
    have hnames : Forall₂ (Binding.Like C)
        (pairs.map fun p => { name := p.name, kind := .letfn })
        (pairs'.map fun p => { name := p.name, kind := .letfn }) :=
      List.rel_map (fun p p' hp => ⟨hp.name, rfl, .none, rfl, rfl, rfl⟩) hpairs
    have hinit := he.bindMany hnames
    refine relates_bind (relates_letfnBindings hinit hr hpairs) fun bound bound' hs => ?_
    have hbound : Forall₂ (Binding.Like C) (bound.map (·.2)) (bound'.map (·.2)) :=
      List.rel_map (fun _ _ h => h.2) hs
    refine relates_bind (relates_analyzeBody hC hexprs (he.bindMany hbound) hr)
      fun body body' hb => ?_
    have hnodes := List.rel_map (fun _ _ h => relates_bindingNode hC h.1 h.2 hinit) hs
    exact relates_pure (.of (.letfnBlock hnodes hb) he)

theorem relates_analyzeRecur :
    C.Relates (analyzeRecur recurse form args e) (analyzeRecur recurse' form' args' e')
      (C.Built form form') := by
  have hid := he.loopId
  have hexpr := he.withContext .expr
  unfold analyzeRecur
  rw [← he.context, ← he.loopArity, ← he.inTry, hargs.length_eq]
  generalize e.context = context
  generalize e.loopArity = arity
  generalize e.loopId = id at hid ⊢
  generalize e'.loopId = id' at hid ⊢
  cases context with
  | ret =>
    cases hid with
    | none => exact relates_fail_same hC hf
    | some hid =>
      cases arity with
      | none => exact relates_fail_same hC hf
      | some arity =>
        dsimp only
        split
        · exact relates_fail_same hC hf
        · split
          · refine relates_bind (relates_analyzeAll hargs hexpr hr) fun exprs exprs' hs => ?_
            exact relates_pure (.of (.recur hid hs) he)
          · exact relates_fail_same hC hf
  | _ => exact relates_fail_same hC hf

theorem relates_analyzeFn {head head' : Form} (hhead : C.form head head') :
    C.Relates (analyzeFn recurse form head args e) (analyzeFn recurse' form' head' args' e')
      (C.Built form form') := by
  unfold analyzeFn
  rw [hC.once hhead]
  dsimp only
  refine relates_bind (relates_functionName hC hf hargs) fun r r' hr₁ => ?_
  obtain ⟨self, rest⟩ := r
  obtain ⟨self', rest'⟩ := r'
  obtain ⟨hself, hrest⟩ := hr₁
  have hforms := related_methodForms hC hrest
  have hmethods : ∀ {named named' : Env}, named.Like C named' →
      ∀ self self', Option.Rel C.node self self' → C.Relates
        (do
          let methods ← (methodForms rest).mapM (analyzeMethod recurse named)
          let r ← check form (Overloads.check (methods.map (·.methodArity)))
          wrapMetadata recurse (.of (.fn self methods r.1 r.2
            (head'.metadataValue? "once" == some (.bool true))) form e))
        (do
          let methods ← (methodForms rest').mapM (analyzeMethod recurse' named')
          let r ← check form' (Overloads.check (methods.map (·.methodArity)))
          wrapMetadata recurse' (.of (.fn self' methods r.1 r.2
            (head'.metadataValue? "once" == some (.bool true))) form' e'))
        (C.Built form form') := by
    intro named named' hnamed self self' hself
    refine relates_bind (relates_mapM hforms fun f f' hf =>
      relates_analyzeMethod hC hf hnamed hr) fun methods methods' hs => ?_
    have harities : methods.map (·.methodArity) = methods'.map (·.methodArity) := by
      rw [← List.forall₂_eq_eq_eq]
      exact List.rel_map (fun _ _ h => h.2) hs
    rw [harities]
    refine relates_bind (relates_check hC (Checked.refl (p := Eq) (fun _ => rfl) _) hf) ?_
    rintro r _ rfl
    have hnodes := hs.imp fun _ _ h => h.1
    exact relates_wrapMetadata hC hf he hr (.fn r.1 r.2 _ hself hnodes)
  cases hself with
  | none => exact hmethods (he.leaveTry.withOnce rfl) _ _ .none
  | some hself =>
    have hnamed := (he.bind hself.2).withSelf hself.2
    exact hmethods (hnamed.leaveTry.withOnce rfl) _ _ (.some (hC.node (.binding hself.2) hself.1 he))

end Binders

end LispFront
