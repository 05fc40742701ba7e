import LispFront.Proofs.Analysis.Provenance
import LispFront.Proofs.Tree.Env

/-!
# Where a `recur` goes back to

A `recur` is analyzed where the environment is in return context, outside of a `try`, and has a loop
to go back to. On the way up from it these three stay as they are until a body of a loop or a method
is left, whose environment got all of them from the construct; so the innermost loop or method
around a `recur` is its target, and with none around it the target comes from the outermost
environment.
-/

namespace LispFront

/-- What an environment must be like for `arity` values to go back to `id` from it. -/
structure Env.Recurs (e : Env) (id : Symbol) (arity : Nat) : Prop where
  context : e.context = .ret
  inTry : e.inTry = false
  loopId : e.loopId = some id
  loopArity : e.loopArity = some arity

theorem Env.recurs_bindMany {e : Env} {bs : List Binding} {id : Symbol} {arity : Nat} :
    (e.bindMany bs).Recurs id arity ↔ e.Recurs id arity := by
  constructor
  · rintro ⟨hcontext, htry, hid, harity⟩
    exact ⟨by simpa using hcontext, by simpa using htry, by simpa using hid, by simpa using harity⟩
  · rintro ⟨hcontext, htry, hid, harity⟩
    exact ⟨by simpa using hcontext, by simpa using htry, by simpa using hid, by simpa using harity⟩

namespace Op

variable {e : Env} {op : Op} {slot : Slot} {i : Nat} {id : Symbol} {arity : Nat}

theorem slot_of_recurPoint {point : Symbol × Nat} (hp : op.recurPoint? = some point)
    (h : (op.slotEnv e slot i).Recurs id arity) : slot = .body ∧ point = (id, arity) := by
  cases op with
  | loop | method =>
    cases slot with
    | body =>
      cases hp
      have hid := h.loopId
      have harity := h.loopArity
      cases hid
      cases harity
      exact ⟨rfl, rfl⟩
    | _ => cases h.context
  | _ => cases hp

end Op

namespace Analyzed

variable {e : Env} {n m r : Node} {slot : Slot} {i : Nat} {id : Symbol} {arity : Nat}

theorem recurs_up (hn : Analyzed e n) (hm : n.Holds slot i m) (hp : n.op.recurPoint? = none)
    (hmp : m.op.recurPoint? = none) (h : (n.op.slotEnv e slot i).Recurs id arity) :
    e.Recurs id arity ∧ Hop.keepsContext ⟨n, slot, i, m⟩ := by
  have hfits := hn.fits
  obtain ⟨op, form, env, raw⟩ := n
  cases op with
  | loop | method => cases hp
  | sequence statements ret body =>
    cases slot with
    | ret => exact ⟨h, rfl⟩
    | _ => cases h.context
  | branch test onTrue onFalse =>
    cases slot with
    | «then» | els => exact ⟨h, rfl⟩
    | _ => cases h.context
  | new cls args =>
    cases slot with
    -- the one slot that keeps the context and is no tail slot
    | cls => exact ⟨⟨h.context, h.inTry, h.loopId, h.loopArity⟩, rfl⟩
    | _ => cases h.context
  | tryBlock body catches cleanup =>
    cases slot with
    | body => cases h.inTry
    | _ => cases h.context
  | handler cls caught body =>
    cases slot with
    | _ => cases h.context
  | letBlock bindings body =>
    cases slot with
    | body => exact ⟨Env.recurs_bindMany.mp h, rfl⟩
    | _ => cases h.context
  | letfnBlock bindings body =>
    cases slot with
    | body => exact ⟨Env.recurs_bindMany.mp h, rfl⟩
    | _ => cases h.context
  | fn self methods variadic maxFixed once =>
    cases slot with
    | methods =>
      -- a method is a target itself, so nothing comes up to the function
      have hmem : m ∈ methods :=
        hm.mem (by cases self <;> simp [Node.children, Op.children, Slot.opt])
      have hmethod := hfits m hmem
      obtain ⟨op, form, env, raw⟩ := m
      cases op with
      | method => cases hmp
      | _ => cases hmethod
    | _ => cases h.context
  | case test branches default shift mask switch tests skipCheck =>
    cases slot with
    | nodes =>
      have hmem : m ∈ branches := hm.mem (by simp [Node.children, Op.children])
      exact ⟨h, by simpa [Hop.keepsContext, Hop.isTail] using .inl (hfits m hmem)⟩
    | default => exact ⟨h, rfl⟩
    | _ => cases h.context
  | caseBranch tests body =>
    cases slot with
    | «then» => exact ⟨h, rfl⟩
    | _ => cases h.context
  | _ => cases h.context

theorem recurTarget {hops : List Hop} {exprs : List Node} (hn : Analyzed e n)
    (p : n.Path hops r) (hr : r.op = .recur id exprs) :
    match recurTarget? hops with
    | some (target, below) =>
      target.slot = .body ∧ target.parent.op.recurPoint? = some (id, exprs.length) ∧
        ∀ k ∈ below, k.keepsContext
    | none => e.Recurs id exprs.length ∧ ∀ k ∈ hops, k.keepsContext := by
  -- from the `recur` upwards: until a target is met, the environment of the node goes back to it
  induction p generalizing e with
  | here n =>
    have h := hn.fits
    rw [hr] at h
    obtain ⟨hcontext, htry, hid, harity⟩ := h
    exact ⟨⟨hcontext, htry, hid, harity⟩, by simp⟩
  | @down n m r slot i hops hm p ih =>
    have h := ih (hn.inSlots hm) hr
    cases ht : recurTarget? hops with
    | some t =>
      rw [ht] at h
      rw [recurTarget?_cons_of_some ht]
      exact h
    | none =>
      rw [ht] at h
      rw [recurTarget?_cons_of_none ht]
      obtain ⟨h, hbelow⟩ := h
      cases hp : n.op.recurPoint? with
      | some point =>
        obtain ⟨rfl, rfl⟩ := Op.slot_of_recurPoint hp h
        simp only [hp, Option.isSome_some, if_true]
        exact ⟨trivial, trivial, hbelow⟩
      | none =>
        have hmp := p.recurPoint?_eq_none hr ht
        obtain ⟨hup, hk⟩ := recurs_up hn hm hp hmp h
        simp only [Option.isSome_none, Bool.false_eq_true, if_false]
        exact ⟨hup, List.forall_mem_cons.mpr ⟨hk, hbelow⟩⟩

end Analyzed

/-- At the end of the path, `arity` values go back to `id`: the body of the innermost loop or method
around is left through no `try` on the way up to it; without one, the target is that of `env`. -/
def GoesBack (env : Env) (hops : List Hop) (id : Symbol) (arity : Nat) : Prop :=
  match recurTarget? hops with
  | some (target, below) =>
    target.slot = .body ∧ target.parent.op.recurPoint? = some (id, arity) ∧
      ∀ k ∈ below, ¬k.parent.op.isTry
  | none => env.Recurs id arity ∧ ∀ k ∈ hops, ¬k.parent.op.isTry

section Analyses

variable {a : Analyzer} {form : Form} {s t : Store} {n r : Node} {hops : List Hop} {id : Symbol}
  {exprs : List Node}

theorem recur_goesBack {env : Env} (h : (a.analyzeIn form env).run.run s = (.ok n, t))
    (p : n.Path hops r) (hr : r.op = .recur id exprs) : GoesBack env hops id exprs.length := by
  have hrecur := (analyzed_of_analyzeIn h).recurTarget p hr
  unfold GoesBack
  cases ht : recurTarget? hops with
  | some target =>
    rw [ht] at hrecur
    obtain ⟨hslot, hpoint, hbelow⟩ := hrecur
    exact ⟨hslot, hpoint, fun k hk => by simp [Hop.not_isTry_of_keepsContext (hbelow k hk)]⟩
  | none =>
    rw [ht] at hrecur
    obtain ⟨henv, hbelow⟩ := hrecur
    exact ⟨henv, fun k hk => by simp [Hop.not_isTry_of_keepsContext (hbelow k hk)]⟩

theorem recur_goesBack_to_loop :
    ∃ n t hops r id exprs,
      (Analyzer.analyzeIn { home := .plain "user" }
        (.call "loop*" [.vector [.sym "x", .nil] [], .call "recur" [.nil]])
        (.empty (.plain "user"))).run.run ⟨.empty, .start⟩ = (.ok n, t) ∧
      n.Path hops r ∧ r.op = .recur id exprs ∧
      GoesBack (.empty (.plain "user")) hops id exprs.length := by
  obtain ⟨n, t, hops, r, id, exprs, h, p, hr⟩ : ∃ n t hops r id exprs,
      (Analyzer.analyzeIn { home := .plain "user" }
        (.call "loop*" [.vector [.sym "x", .nil] [], .call "recur" [.nil]])
        (.empty (.plain "user"))).run.run ⟨.empty, .start⟩ = (.ok n, t) ∧
      n.Path hops r ∧ r.op = .recur id exprs :=
    ⟨_, _, _, _, _, _, rfl, Node.path_of_descend? [(.body, 0), (.ret, 0)] rfl, rfl⟩
  exact ⟨n, t, hops, r, id, exprs, h, p, hr, recur_goesBack h p hr⟩

/-- The class of a created object is all that keeps a `recur` from standing in tail position. -/
theorem recur_tailPosition_iff (h : (a.analyze form).run.run s = (.ok n, t))
    (p : n.Path hops r) (hr : r.op = .recur id exprs) :
    ∃ target below, recurTarget? hops = some (target, below) ∧ target.slot = .body ∧
      (∀ k ∈ below, k.isTail ∨ k.isClassOfNew) ∧
      (TailPosition hops ↔ ∀ k ∈ below, ¬k.isClassOfNew) := by
  have hrecur := (analyzed_of_analyzeIn h).recurTarget p hr
  cases ht : recurTarget? hops with
  | none =>
    rw [ht] at hrecur
    cases hrecur.1.context
  | some target =>
    obtain ⟨target, below⟩ := target
    rw [ht] at hrecur
    obtain ⟨hslot, -, hbelow⟩ := hrecur
    have hkeeps : ∀ k ∈ below, k.isTail ∨ k.isClassOfNew := fun k hk => by
      simpa [Hop.keepsContext] using hbelow k hk
    refine ⟨target, below, rfl, hslot, hkeeps, ?_⟩
    rw [tailPosition_iff ht]
    constructor
    · rintro ⟨-, htail⟩ k hk
      exact (Hop.isTail_iff_of_keepsContext (hbelow k hk)).mp (htail k hk)
    · intro hcls
      exact ⟨hslot, fun k hk => (Hop.isTail_iff_of_keepsContext (hbelow k hk)).mpr (hcls k hk)⟩

theorem recur_tailPosition_in_loop :
    ∃ n t hops r id exprs,
      (Analyzer.analyze { home := .plain "user" }
        (.call "loop*" [.vector [] [], .call "recur" []])).run.run ⟨.empty, .start⟩ = (.ok n, t) ∧
      n.Path hops r ∧ r.op = .recur id exprs ∧ TailPosition hops := by
  obtain ⟨n, t, hops, r, id, exprs, h, p, hr, ht⟩ : ∃ n t hops r id exprs,
      (Analyzer.analyze { home := .plain "user" }
        (.call "loop*" [.vector [] [], .call "recur" []])).run.run ⟨.empty, .start⟩ = (.ok n, t) ∧
      n.Path hops r ∧ r.op = .recur id exprs ∧
      ∀ target below, recurTarget? hops = some (target, below) → ∀ k ∈ below, ¬k.isClassOfNew := by
    refine ⟨_, _, _, _, _, _, rfl, Node.path_of_descend? [(.body, 0), (.ret, 0)] rfl, rfl, ?_⟩
    intro target below ht
    cases ht
    simp [Hop.isClassOfNew, Node.of]
  obtain ⟨target, below, htarget, -, -, hiff⟩ := recur_tailPosition_iff h p hr
  exact ⟨n, t, hops, r, id, exprs, h, p, hr, hiff.mpr (ht target below htarget)⟩

/-- In `(loop* [] (new (recur)))` the class is a `recur`, whose value no loop gives. -/
theorem recur_in_class_of_new :
    ∃ n t hops r id exprs,
      (Analyzer.analyze { home := .plain "user" }
        (.call "loop*" [.vector [] [], .call "new" [.call "recur" []]])).run.run
        ⟨.empty, .start⟩ = (.ok n, t) ∧
      n.Path hops r ∧ r.op = .recur id exprs ∧ ¬TailPosition hops := by
  refine ⟨_, _, _, _, _, _, rfl,
    Node.path_of_descend? [(.body, 0), (.ret, 0), (.cls, 0)] rfl, rfl, ?_⟩
  rintro ⟨target, below, ht, -, htail⟩
  cases ht
  have h := htail _ (.tail _ (.head _))
  cases h

end Analyses

end LispFront
