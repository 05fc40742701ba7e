import LispFront.Proofs.Analysis.Calls

/-!
# Binding vectors as lists of pairs

A binding vector that can be read at all has a form to bind and one for the value in turn. Reading
it does nothing to the store, and succeeds if the former can all be bound.
-/

namespace LispFront

open AnalyzerM
open List (Forall₂)

namespace BindingPair

def flatten (ps : List (Form × Form)) : List Form := ps.flatMap fun p => [p.1, p.2]

def Of (p : Form × Form) (b : BindingPair) : Prop :=
  ∃ name m, p.1 = .symbol name m ∧ name.isBindable ∧ b = ⟨p.1, name, p.2⟩

def callOf (op : String) (ps : List (Form × Form)) (exprs : List Form) : Form :=
  .call op (.vector (flatten ps) [] :: exprs)

variable {ps : List (Form × Form)} {s t : Analysis}

theorem calls_callOf (op : String) (ps : List (Form × Form)) (exprs : List Form) :
    (callOf op ps exprs).Calls op (.vector (flatten ps) [] :: exprs) :=
  ⟨[], [], rfl⟩

theorem Of.unique {p : Form × Form} {b b' : BindingPair} (h : Of p b) (h' : Of p b') : b = b' := by
  obtain ⟨name, m, hp, -, rfl⟩ := h
  obtain ⟨name', m', hp', -, rfl⟩ := h'
  rw [hp] at hp'
  cases hp'
  rfl

theorem length_flatten (ps : List (Form × Form)) : (flatten ps).length = ps.length * 2 := by
  simp [flatten]

theorem run_ofForms_cons {p : Form × Form} {bs : List BindingPair} :
    (ofForms (p.1 :: p.2 :: flatten ps)).run.run s = (.ok bs, t) ↔
      ∃ b bs', Of p b ∧ (ofForms (flatten ps)).run.run s = (.ok bs', t) ∧ bs = b :: bs' := by
  obtain ⟨written, init⟩ := p
  conv_lhs => unfold ofForms
  dsimp only
  split
  · rename_i name m
    split
    · rename_i hname
      rw [run_bind_eq_ok]
      constructor
      · rintro ⟨bs', u, hrest, ⟨⟩⟩
        exact ⟨_, bs', ⟨name, m, rfl, hname, rfl⟩, hrest, rfl⟩
      · rintro ⟨b, bs', ⟨name', m', hwritten, -, rfl⟩, hrest, rfl⟩
        cases hwritten
        exact ⟨bs', t, hrest, rfl⟩
    · rename_i hname
      refine ⟨nofun, ?_⟩
      rintro ⟨b, bs', ⟨name', m', hwritten, hname', -⟩, -⟩
      cases hwritten
      exact absurd hname' hname
  · rename_i hnone
    refine ⟨nofun, ?_⟩
    rintro ⟨b, bs', ⟨name, m, hwritten, -⟩, -⟩
    exact absurd hwritten (hnone name m)

theorem run_ofForms_eq_ok {bs : List BindingPair} :
    (ofForms (flatten ps)).run.run s = (.ok bs, t) ↔ Forall₂ Of ps bs ∧ t = s := by
  induction ps generalizing bs with
  | nil =>
    constructor
    · rintro ⟨⟩
      exact ⟨.nil, rfl⟩
    · rintro ⟨⟨⟩, rfl⟩
      rfl
  | cons p ps ih =>
    change (ofForms (p.1 :: p.2 :: flatten ps)).run.run s = _ ↔ _
    rw [run_ofForms_cons]
    constructor
    · rintro ⟨b, bs', hb, hrest, rfl⟩
      obtain ⟨hbs, ht⟩ := ih.mp hrest
      exact ⟨.cons hb hbs, ht⟩
    · rintro ⟨_ | ⟨hb, hbs⟩, ht⟩
      exact ⟨_, _, hb, ih.mpr ⟨hbs, ht⟩, rfl⟩

theorem run_ofArgs_eq_ok {op : String} {form : Form} {m : FormMap} {exprs : List Form}
    {r : List BindingPair × List Form} :
    (ofArgs op form (.vector (flatten ps) m :: exprs)).run.run s = (.ok r, t) ↔
      Forall₂ Of ps r.1 ∧ r.2 = exprs ∧ t = s := by
  have heven : (flatten ps).length % 2 = 0 := by
    rw [length_flatten]
    exact Nat.mul_mod_left _ _
  change (if (flatten ps).length % 2 = 0 then
      ofForms (flatten ps) >>= fun pairs => pure (pairs, exprs)
    else _ : AnalyzerM _).run.run s = _ ↔ _
  rw [if_pos heven, run_bind_eq_ok]
  constructor
  · rintro ⟨pairs, u, hpairs, ⟨⟩⟩
    obtain ⟨hbs, ht⟩ := run_ofForms_eq_ok.mp hpairs
    exact ⟨hbs, rfl, ht⟩
  · rintro ⟨hbs, rfl, rfl⟩
    exact ⟨r.1, t, run_ofForms_eq_ok.mpr ⟨hbs, rfl⟩, rfl⟩

end BindingPair

end LispFront
