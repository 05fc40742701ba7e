import LispFront.Proofs.Analysis.Binders
import LispFront.Proofs.Analysis.Grammar.Constructs

/-!
# The grammar of binding constructs

Every local comes out as a binding of its construct's kind. Locals of `let*`, `loop*` and `letfn*`
have initial values; parameters, functions' own names and caught exceptions have none.
-/

namespace LispFront

open AnalyzerM
open Node (Plays)

def Node.PlaysLocal (kind : LocalKind) (init : Bool) (n : Node) : Prop :=
  n.op.Binds kind init ∧ Plays .binding n

theorem playsLocal_of_init {b : Binding} {init : Node} (h : Plays .expression init)
    (hb : b.init = some init) (f : Form) (e : Env) :
    (Node.of (.binding b) f e).PlaysLocal b.kind true := by
  refine ⟨⟨b, rfl, rfl, by simp [hb]⟩, .of_slots rfl trivial (.opt fun n hn => ?_)⟩
  rw [hb, Option.mem_some_iff] at hn
  exact hn ▸ h

theorem playsLocal_of_none {b : Binding} (hb : b.init = none) (f : Form) (e : Env) :
    (Node.of (.binding b) f e).PlaysLocal b.kind false :=
  ⟨⟨b, rfl, rfl, by simp [hb]⟩, .of_slots rfl trivial (.opt (by simp [hb]))⟩

namespace Params

variable {variadic : Bool} {ps : List Form} {bs : List Binding} {i : Nat}

theorem bindings_getElem? (h : bindings variadic i ps = .ok bs) {j : Nat} {b : Binding}
    (hb : bs[j]? = some b) :
    b.kind = .arg ∧ b.init = none ∧ b.argId = some (i + j) ∧
      (b.variadic ↔ variadic ∧ j + 1 = ps.length) := by
  induction ps generalizing i bs j with
  | nil =>
    cases h
    cases hb
  | cons p ps ih =>
    unfold bindings at h
    split at h
    · split at h
      · cases hrest : bindings variadic (i + 1) ps with
        | error fault =>
          rw [hrest] at h
          cases h
        | ok rest =>
          rw [hrest] at h
          cases h
          cases j with
          | zero =>
            cases hb
            simp [List.isEmpty_iff, List.length_eq_zero_iff]
          | succ j =>
            obtain ⟨hkind, hinit, hid, hlast⟩ := ih hrest hb
            refine ⟨hkind, hinit, ?_, by simpa using hlast⟩
            rw [hid]
            congr 1
            omega
      · cases h
    · cases h

theorem length_all (p : Params) : p.all.length = p.fixed.length + p.variadic.isSome.toNat := by
  cases h : p.variadic <;> simp [all, h]

theorem parameters (p : Params) (h : bindings p.variadic.isSome 0 p.all = .ok bs) (e : Env) :
    Op.Parameters ((p.all.zip bs).map fun (f, b) => Node.of (.binding b) f e) p.fixed.length
      p.variadic.isSome := by
  have hlength : bs.length = p.all.length := bindings_length h
  have hall := p.length_all
  refine ⟨by simp [hlength, hall], fun i n hn => ?_⟩
  rw [List.getElem?_map, Option.map_eq_some_iff] at hn
  obtain ⟨⟨f, b⟩, hzip, rfl⟩ := hn
  rw [List.getElem?_zip_eq_some] at hzip
  obtain ⟨hkind, hinit, hid, hlast⟩ := bindings_getElem? h hzip.2
  refine ⟨b, rfl, hkind, hinit, by simpa using hid, hlast.trans ?_⟩
  constructor
  · rintro ⟨hvariadic, hi⟩
    rw [hvariadic, Bool.toNat_true] at hall
    exact ⟨hvariadic, by omega⟩
  · rintro ⟨hvariadic, hi⟩
    rw [hvariadic, Bool.toNat_true] at hall
    exact ⟨hvariadic, by omega⟩

end Params

theorem kind_of_functionName (form : Form) (args : List Form) :
    Yields (functionName form args) fun r =>
      ∀ self ∈ r.1, self.2.kind = .fn ∧ self.2.init = none := by
  unfold functionName
  split
  · split
    · exact yields_pure (by simp)
    · exact yields_fail _ _
  · exact yields_pure (by simp)

section Binders

variable {recurse : Recurse} (hr : recurse.Grammatical)
include hr

theorem plays_bindInTurn (kind : LocalKind) (pairs : List BindingPair) (e : Env) :
    Yields (bindInTurn recurse kind pairs e) fun r => ∀ n ∈ r.1, n.PlaysLocal kind true := by
  induction pairs generalizing e with
  | nil => exact yields_pure nofun
  | cons p ps ih =>
    unfold bindInTurn
    refine yields_bind (hr.plays _ _) fun init hi => ?_
    refine yields_bind (ih _) fun r hs => ?_
    exact yields_pure (List.forall_mem_cons.mpr ⟨playsLocal_of_init hi rfl _ _, hs⟩)

theorem plays_analyzeLet (form : Form) (args : List Form) (e : Env) :
    Yields (analyzeLet recurse form args e) (Plays .expression) := by
  unfold analyzeLet
  refine yields_bind yields_true fun r _ => ?_
  refine yields_bind (plays_bindInTurn hr _ _ _) fun r hs => ?_
  refine yields_bind (plays_analyzeBody hr _ _) fun body hb => ?_
  refine yields_pure (.of_slots rfl (fun n hn => (hs n hn).1) ?_)
  exact .many (fun n hn => (hs n hn).2) (.one hb .nil)

theorem plays_analyzeLoop (form : Form) (args : List Form) (e : Env) :
    Yields (analyzeLoop recurse form args e) (Plays .expression) := by
  unfold analyzeLoop
  refine yields_bind yields_true fun id _ => ?_
  refine yields_bind yields_true fun r _ => ?_
  refine yields_bind (plays_bindInTurn hr _ _ _) fun r hs => ?_
  refine yields_bind (plays_analyzeBody hr _ _) fun body hb => ?_
  refine yields_pure (.of_slots rfl (fun n hn => (hs n hn).1) ?_)
  exact .many (fun n hn => (hs n hn).2) (.one hb .nil)

theorem plays_letfnBindings (e : Env) (pairs : List BindingPair) :
    Yields (letfnBindings recurse e pairs) fun bound =>
      ∀ r ∈ bound, (r.1.bindingNode r.2 e).PlaysLocal .letfn true := by
  induction pairs with
  | nil => exact yields_pure nofun
  | cons p ps ih =>
    unfold letfnBindings
    refine yields_bind (hr.plays _ _) fun init hi => ?_
    refine yields_bind ih fun bound hs => ?_
    exact yields_pure (List.forall_mem_cons.mpr ⟨playsLocal_of_init hi rfl _ _, hs⟩)

theorem plays_analyzeLetfn (form : Form) (args : List Form) (e : Env) :
    Yields (analyzeLetfn recurse form args e) (Plays .expression) := by
  unfold analyzeLetfn
  refine yields_bind yields_true fun r _ => ?_
  dsimp only
  split
  · exact yields_fail _ _
  · refine yields_bind (plays_letfnBindings hr _ _) fun bound hs => ?_
    refine yields_bind (plays_analyzeBody hr _ _) fun body hb => ?_
    have hlocals := List.forall_mem_map.mpr hs
    refine yields_pure (.of_slots rfl (fun n hn => (hlocals n hn).1) ?_)
    exact .many (fun n hn => (hlocals n hn).2) (.one hb .nil)

theorem plays_analyzeRecur (form : Form) (args : List Form) (e : Env) :
    Yields (analyzeRecur recurse form args e) (Plays .expression) := by
  unfold analyzeRecur
  split
  · split
    · exact yields_fail _ _
    · split
      · refine yields_bind (plays_analyzeAll hr _ _) fun exprs he => ?_
        exact yields_pure (.of_slots rfl trivial (.many he .nil))
      · exact yields_fail _ _
  · exact yields_fail _ _

theorem plays_analyzeMethod (e : Env) (form : Form) :
    Yields (analyzeMethod recurse e form) (Plays .method) := by
  unfold analyzeMethod
  split
  · refine yields_bind yields_true fun params _ => ?_
    refine yields_bind (yields_check _ _) fun bindings hbs => ?_
    refine yields_bind yields_true fun id _ => ?_
    refine yields_bind (plays_analyzeBody hr _ _) fun body hb => ?_
    refine yields_pure (.of_slots rfl (params.parameters hbs _) (.many ?_ (.one hb .nil)))
    intro n hn
    obtain ⟨⟨p, b⟩, hzip, rfl⟩ := List.mem_map.mp hn
    have hinit := Params.bindings_init hbs b (List.of_mem_zip hzip).2
    exact (playsLocal_of_none hinit _ _).2
  · exact yields_fail _ _
  · exact yields_fail _ _
  · exact yields_fail _ _

theorem plays_analyzeFn (form head : Form) (args : List Form) (e : Env) :
    Yields (analyzeFn recurse form head args e) (Plays .expression) := by
  unfold analyzeFn
  refine yields_bind (kind_of_functionName _ _) fun r hname => ?_
  obtain ⟨self, rest⟩ := r
  refine yields_bind (yields_mapM fun f _ => plays_analyzeMethod hr _ f) fun methods hs => ?_
  refine yields_bind yields_true fun r _ => ?_
  have hself : ∀ n ∈ self.map fun (written, b) => Node.of (.binding b) written e,
      n.PlaysLocal .fn false := by
    intro n hn
    obtain ⟨⟨written, b⟩, hb, rfl⟩ := Option.map_eq_some_iff.mp hn
    obtain ⟨hkind, hinit⟩ := hname _ hb
    exact hkind ▸ playsLocal_of_none hinit written e
  refine plays_wrapMetadata hr (.of_slots rfl (fun n hn => (hself n hn).1) ?_) rfl
  exact .append (.opt fun n hn => (hself n hn).2) (.many hs .nil)

end Binders

end LispFront
