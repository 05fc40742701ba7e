import LispFront.Proofs.Analysis.Provenance
import LispFront.Proofs.Tree.Scope

/-!
# What names are resolved to

A symbol in an analyzed tree is resolved by the scope that the path to it gives, whatever the
directory knows under the same name.
-/

namespace LispFront

def Op.isReference : Op → Bool
  | .localRef _ | .varRef _ | .hostForm .. | .classRef _ => true
  | _ => false

def Node.ResolvedBy (n : Node) (σ : Scope) : Prop :=
  ∃ s m, n.form = .symbol s m ∧ ∀ b, n.op = .localRef b ↔ σ s = some b

namespace Analyzed

theorem resolvedBy {e : Env} {n : Node} (hn : Analyzed e n) (h : n.op.isReference) :
    n.ResolvedBy e.scope := by
  have hfits := hn.fits
  obtain ⟨op, form, env, raw⟩ := n
  cases op with
  | localRef b =>
    obtain ⟨s, m, hform, hb⟩ := hfits
    refine ⟨s, m, hform, fun b' => ?_⟩
    rw [Env.scope, hb, Option.some.injEq, Op.localRef.injEq]
  | varRef | hostForm | classRef =>
    obtain ⟨s, m, hform, hs⟩ := hfits
    refine ⟨s, m, hform, fun b => ?_⟩
    simp [Env.scope, hs]
  | _ => cases h

theorem resolvedAlong {e : Env} {n r : Node} {hops : List Hop} (hn : Analyzed e n)
    (p : n.Path hops r) (hr : r.op.isReference) : r.ResolvedBy (scopeAlong e.scope hops) := by
  induction p generalizing e with
  | here n => exact hn.resolvedBy hr
  | @down n m r slot i hops hm p ih =>
    have h := ih (hn.inSlots hm) hr
    rw [scope_slotEnv e n m] at h
    exact h

end Analyzed

theorem reference_resolved {a : Analyzer} {form : Form} {env : Env} {s t : Store} {n r : Node}
    {hops : List Hop} (h : (a.analyzeIn form env).run.run s = (.ok n, t)) (p : n.Path hops r)
    (hr : r.op.isReference) :
    ∃ x m, r.form = .symbol x m ∧
      ∀ b, (r.op = .localRef b ↔ scopeAlong env.scope hops x = some b) ∧
        (r.op = .localRef b → b.init = none) := by
  obtain ⟨x, m, hform, hx⟩ := (analyzed_of_analyzeIn h).resolvedAlong p hr
  refine ⟨x, m, hform, fun b => ⟨hx b, fun hb => ?_⟩⟩
  exact bare_scopeAlong env.bare_scope hops x b ((hx b).mp hb)

theorem reference_resolved_in_let :
    ∃ n t hops r x m,
      (Analyzer.analyzeIn { home := .plain "user" }
        (.call "let*" [.vector [.sym "x", .nil] [], .sym "x"])
        (.empty (.plain "user"))).run.run ⟨.empty, .start⟩ = (.ok n, t) ∧
      n.Path hops r ∧ r.op.isReference ∧ r.form = .symbol x m ∧
      ∀ b, (r.op = .localRef b ↔
          scopeAlong (Env.empty (.plain "user")).scope hops x = some b) ∧
        (r.op = .localRef b → b.init = none) := by
  obtain ⟨n, t, hops, r, h, p, hr⟩ : ∃ n t hops r,
      (Analyzer.analyzeIn { home := .plain "user" }
        (.call "let*" [.vector [.sym "x", .nil] [], .sym "x"])
        (.empty (.plain "user"))).run.run ⟨.empty, .start⟩ = (.ok n, t) ∧
      n.Path hops r ∧ r.op.isReference :=
    ⟨_, _, _, _, rfl, Node.path_of_descend? [(.body, 0), (.ret, 0)] rfl, rfl⟩
  obtain ⟨x, m, hform, hx⟩ := reference_resolved h p hr
  exact ⟨n, t, hops, r, x, m, h, p, hr, hform, hx⟩

end LispFront
