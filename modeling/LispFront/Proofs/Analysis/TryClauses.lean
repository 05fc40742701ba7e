import LispFront.Proofs.Analysis.Calls
import LispFront.Proofs.Span

/-!
# The clauses of a `try`

The forms behind `try` are taken apart in the only way there is: what is no clause, then the `catch`
clauses, then the `finally` clauses. If they can not be taken apart so, or if there is more than one
`finally`, that is found out before anything is analyzed.
-/

namespace LispFront

open AnalyzerM
open List (Forall₂)

namespace TryClauses

/-- Forms that are no clauses, then `catch` clauses, then `finally` clauses. -/
structure Shaped (args body catches finallies : List Form) : Prop where
  args_eq : args = body ++ (catches ++ finallies)
  body : ∀ f ∈ body, isClause f = false
  catches : ∀ f ∈ catches, f.isCallTo "catch"
  finallies : ∀ f ∈ finallies, f.isCallTo "finally"

variable {args body catches finallies : List Form} {f : Form}

theorem not_catch_of_finally (h : f.isCallTo "finally") : f.isCallTo "catch" = false := by
  unfold Form.isCallTo at h ⊢
  split at h
  · rename_i s _ _ _
    have hs : s = .plain "finally" := by simpa [Symbol.is] using h
    subst hs
    rfl
  · cases h

theorem split_of_shaped (h : Shaped args body catches finallies) :
    split args = ⟨body, catches, finallies, []⟩ := by
  obtain ⟨rfl, hbody, hcatches, hfinallies⟩ := h
  have hnot : ∀ f ∈ finallies.head?, f.isCallTo "catch" = false := fun f hf =>
    not_catch_of_finally (hfinallies f (List.mem_of_mem_head? hf))
  have hclause : ∀ f ∈ (catches ++ finallies).head?, (!isClause f) = false := by
    intro f hf
    rcases List.mem_append.mp (List.mem_of_mem_head? hf) with hf | hf
    · simp [isClause, hcatches f hf]
    · simp [isClause, hfinallies f hf]
  have hbody : ∀ f ∈ body, (!isClause f) = true := by simpa using hbody
  have hbodyTake := takeWhile_append_of_stop hbody hclause
  have hbodyDrop := dropWhile_append_of_stop hbody hclause
  have hcatchTake := takeWhile_append_of_stop hcatches hnot
  have hcatchDrop := dropWhile_append_of_stop hcatches hnot
  have hfinallyTake := List.takeWhile_eq_self_iff.mpr hfinallies
  have hfinallyDrop := List.dropWhile_eq_nil_iff.mpr hfinallies
  simp only [split, hbodyTake, hbodyDrop, hcatchTake, hcatchDrop, hfinallyTake, hfinallyDrop]

theorem append_of_split (args : List Form) :
    (split args).body ++ ((split args).catches ++ ((split args).finallies ++ (split args).strays)) =
      args := by
  simp only [split, List.takeWhile_append_dropWhile]

theorem shaped_of_split (h : (split args).strays = []) :
    Shaped args (split args).body (split args).catches (split args).finallies where
  args_eq := by
    have happend := append_of_split args
    rw [h, List.append_nil] at happend
    exact happend.symm
  body f hf := by simpa using List.mem_takeWhile_imp hf
  catches f hf := List.mem_takeWhile_imp hf
  finallies f hf := List.mem_takeWhile_imp hf

theorem strays_of_unshaped (h : ¬∃ body catches finallies, Shaped args body catches finallies) :
    ∃ stray rest, (split args).strays = stray :: rest ∧ stray ∈ args := by
  cases hstrays : (split args).strays with
  | nil => exact absurd ⟨_, _, _, shaped_of_split hstrays⟩ h
  | cons stray rest =>
    have happend := append_of_split args
    rw [hstrays] at happend
    refine ⟨stray, rest, rfl, ?_⟩
    rw [← happend]
    simp

end TryClauses

def Gave (recurse : Recurse) (env : Env) (f : Form) (n : Node) : Prop :=
  ∃ s t, (recurse f env).run.run s = (.ok n, t)

/-- A sequence that nobody wrote, of these forms and no others, in this order. -/
inductive ImplicitDo (recurse : Recurse) (env : Env) : List Form → Node → Prop
  | empty : ImplicitDo recurse env []
      (.of (.sequence [] (constant .nil env) true) (.call "do" []) env)
  | concat {exprs : List Form} {last : Form} {statements : List Node} {ret : Node} :
      Forall₂ (Gave recurse (env.withContext .statement)) exprs statements →
      Gave recurse env last ret →
      ImplicitDo recurse env (exprs ++ [last])
        (.of (.sequence statements ret true) (.call "do" (exprs ++ [last])) env)

inductive Handles (recurse : Recurse) (env : Env) (clause : Form) : Node → Prop
  | intro {cls : Form} {name : Symbol} {m : FormMap} {exprs : List Form} {clsNode body : Node} :
      clauseArgs clause = cls :: .symbol name m :: exprs → name.isBindable →
      Gave recurse env.leaveTry.withoutLocals cls clsNode →
      ImplicitDo recurse (env.leaveTry.bind { name, kind := .catch }) exprs body →
      Handles recurse env clause (.of (.handler clsNode
        (.of (.binding { name, kind := .catch }) (.symbol name m) env.leaveTry.withoutLocals) body)
        clause env.leaveTry)

theorem ImplicitDo.form_eq {recurse : Recurse} {env : Env} {exprs : List Form} {n : Node}
    (h : ImplicitDo recurse env exprs n) : n.form = .call "do" exprs := by
  cases h with
  | empty => rfl
  | concat _ _ => rfl

theorem Handles.form_eq {recurse : Recurse} {env : Env} {clause : Form} {n : Node}
    (h : Handles recurse env clause n) : n.form = clause := by
  cases h with
  | intro _ _ _ _ => rfl

/-- Why a `try` whose forms can be taken apart fails: the first of its parts that does. -/
inductive TryFails (recurse : Recurse) (env : Env) (body catches : List Form)
    (cleanup : Option Form) (s : Analysis) : AnalysisError → Analysis → Prop
  | body {e : AnalysisError} {t : Analysis} :
      (analyzeBody recurse body env.enterTry).run.run s = (.error e, t) →
      TryFails recurse env body catches cleanup s e t
  | handler {b : Node} {before after : List Form} {clause : Form} {hs : List Node}
      {e : AnalysisError} {t u v : Analysis} :
      (analyzeBody recurse body env.enterTry).run.run s = (.ok b, u) →
      catches = before ++ clause :: after →
      (before.mapM (analyzeCatch recurse (env.enterTry.withContext .expr))).run.run u = (.ok hs, v) →
      (analyzeCatch recurse (env.enterTry.withContext .expr) clause).run.run v = (.error e, t) →
      TryFails recurse env body catches cleanup s e t
  | cleanup {b : Node} {clause : Form} {hs : List Node} {e : AnalysisError} {t u v : Analysis} :
      (analyzeBody recurse body env.enterTry).run.run s = (.ok b, u) →
      (catches.mapM (analyzeCatch recurse (env.enterTry.withContext .expr))).run.run u = (.ok hs, v) →
      cleanup = some clause →
      (analyzeBody recurse (clauseArgs clause)
        (env.withContext .statement).leaveTry).run.run v = (.error e, t) →
      TryFails recurse env body catches cleanup s e t

section Try

variable (recurse : Recurse) (env : Env)

theorem yields_gave (f : Form) : Yields (recurse f env) (Gave recurse env f) :=
  fun s _ t h => ⟨s, t, h⟩

theorem implicitDo_of_analyzeBody (exprs : List Form) :
    Yields (analyzeBody recurse exprs env) (ImplicitDo recurse env exprs) := by
  unfold analyzeBody analyzeSequence
  split
  · rename_i hlast
    rw [List.getLast?_eq_none_iff.mp hlast]
    exact yields_pure .empty
  · rename_i last hlast
    obtain ⟨init, rfl⟩ := List.getLast?_eq_some_iff.mp hlast
    rw [List.dropLast_concat]
    refine yields_bind (yields_mapM_forall₂ init (yields_gave recurse _)) fun statements hs => ?_
    refine yields_bind (yields_gave recurse env last) fun ret hret => ?_
    exact yields_pure (.concat hs hret)

theorem handles_of_analyzeCatch (clause : Form) :
    Yields (analyzeCatch recurse env clause) (Handles recurse env clause) := by
  unfold analyzeCatch
  split
  · rename_i hargs
    split
    · split
      · rename_i hname
        refine yields_bind (yields_gave recurse _ _) fun cls hcls => ?_
        refine yields_bind (implicitDo_of_analyzeBody recurse _ _) fun body hbody => ?_
        exact yields_pure (.intro hargs hname hcls hbody)
      · exact yields_fail _ _
    · exact yields_fail _ _
  · exact yields_fail _ _

variable {recurse env} {body catches args : List Form} {cleanup : Option Form} {form : Form}
  (h : TryClauses.Shaped args body catches cleanup.toList)
include h

theorem analyzeTry_of_shaped : analyzeTry recurse form args env = (do
    let b ← analyzeBody recurse body env.enterTry
    let hs ← catches.mapM (analyzeCatch recurse (env.enterTry.withContext .expr))
    let c ← cleanup.mapM fun clause =>
      analyzeBody recurse (clauseArgs clause) (env.withContext .statement).leaveTry
    return .of (.tryBlock b hs c) form env) := by
  unfold analyzeTry
  rw [TryClauses.split_of_shaped h]
  cases cleanup with
  | none => rfl
  | some clause => rfl

theorem parts_of_analyzeTry :
    Yields (analyzeTry recurse form args env) fun n => ∃ b hs c,
      n = .of (.tryBlock b hs c) form env ∧ ImplicitDo recurse env.enterTry body b ∧
        Forall₂ (Handles recurse (env.enterTry.withContext .expr)) catches hs ∧
        Option.Rel (fun clause d =>
          ImplicitDo recurse (env.withContext .statement).leaveTry (clauseArgs clause) d) cleanup c := by
  have hcleanup : Yields (cleanup.mapM fun clause =>
      analyzeBody recurse (clauseArgs clause) (env.withContext .statement).leaveTry)
      (Option.Rel (fun clause d =>
        ImplicitDo recurse (env.withContext .statement).leaveTry (clauseArgs clause) d) cleanup) := by
    cases cleanup with
    | none => exact yields_pure .none
    | some clause =>
      rw [Option.mapM_some]
      exact yields_map (yields_mono (implicitDo_of_analyzeBody _ _ _) fun d hd => .some hd)
  rw [analyzeTry_of_shaped h]
  refine yields_bind (implicitDo_of_analyzeBody _ _ _) fun b hb => ?_
  refine yields_bind (yields_mapM_forall₂ _ (handles_of_analyzeCatch _ _)) fun hs hhs => ?_
  refine yields_bind hcleanup fun c hc => ?_
  exact yields_pure ⟨b, hs, c, rfl, hb, hhs, hc⟩

theorem tryFails_of_analyzeTry {s t : Analysis} {e : AnalysisError}
    (herror : (analyzeTry recurse form args env).run.run s = (.error e, t)) :
    TryFails recurse env body catches cleanup s e t := by
  rw [analyzeTry_of_shaped h] at herror
  rcases error_of_bind herror with hbody | ⟨b, u, hb, herror⟩
  · exact .body hbody
  rcases error_of_bind herror with hcatches | ⟨hs, v, hhs, herror⟩
  · obtain ⟨before, clause, after, hs, v, rfl, hbefore, hclause⟩ := error_of_mapM hcatches
    exact .handler hb rfl hbefore hclause
  rcases error_of_bind herror with hcleanup | ⟨c, w, -, hpure⟩
  · cases cleanup with
    | none => cases hcleanup
    | some clause =>
      rw [Option.mapM_some, map_eq_pure_bind] at hcleanup
      rcases error_of_bind hcleanup with hclause | ⟨d, w, -, hpure⟩
      · exact .cleanup hb hhs rfl hclause
      · cases hpure
  · cases hpure

end Try

section Forms

variable {a : Analyzer} {fuel : Nat} {args : List Form} {m m' : FormMap} {g : Form} {env : Env}
  (hg : a.expand (.list (.symbol (.plain "try") m :: args) m') env = .ok g)
  (heq : g == .list (.symbol (.plain "try") m :: args) m')
include hg heq

theorem analyzeLevel_try (recurse : Recurse) :
    a.analyzeLevel recurse (.list (.symbol (.plain "try") m :: args) m') env =
      within (.list (.symbol (.plain "try") m :: args) m') (analyzeTry recurse
        (.list (.symbol (.plain "try") m :: args) m') args env) := by
  have hhead : SpecialForm.ofHead? (.symbol (.plain "try") m) = some .tryBlock :=
    SpecialForm.ofHead?_name .tryBlock m
  rw [analyzeLevel_call recurse hg heq, Analyzer.analyzeCall, hhead]

/-- At a depth below the limit, the forms behind `try` are taken apart in one way or refused before
anything is analyzed. Once they are taken apart, each has its place in the tree, unless one of the
parts can not be analyzed. -/
theorem try_clauses_exact {s : Analysis} (hs : s.depth < a.maxDepth) :
    let form := Form.list (.symbol (.plain "try") m :: args) m'
    let run := (a.analyzeForm (fuel + 1) form env).run.run s
    ((¬∃ body catches finallies, TryClauses.Shaped args body catches finallies) →
      ∃ stray ∈ args, run = (.error ((AnalysisError.of .clauseOrder stray).within form), s)) ∧
    (∀ body catches first second rest,
      TryClauses.Shaped args body catches (first :: second :: rest) →
        run = (.error ((AnalysisError.of .secondFinally second).within form), s)) ∧
    ∀ body catches (cleanup : Option Form), TryClauses.Shaped args body catches cleanup.toList →
      (∀ n t, run = (.ok n, t) → ∃ b hs c, n = .of (.tryBlock b hs c) form env ∧
        ImplicitDo (a.analyzeForm fuel) env.enterTry body b ∧
        Forall₂ (Handles (a.analyzeForm fuel) (env.enterTry.withContext .expr)) catches hs ∧
        Option.Rel (fun clause d => ImplicitDo (a.analyzeForm fuel)
          (env.withContext .statement).leaveTry (clauseArgs clause) d) cleanup c) ∧
      ∀ e t, run = (.error e, t) → ∃ e' u, e = e'.within form ∧ t = u.leave ∧
        TryFails (a.analyzeForm fuel) env body catches cleanup s.enter e' u := by
  intro form run
  let inner := (within form (analyzeTry (a.analyzeForm fuel) form args env)).run.run s.enter
  have hrun : run = (inner.1, inner.2.leave) := by
    change (a.analyzeForm (fuel + 1) form env).run.run s = _
    rw [Analyzer.run_analyzeForm_succ hs, analyzeLevel_try hg heq]
  refine ⟨fun hunshaped => ?_, fun body catches first second rest hshaped => ?_,
    fun body catches cleanup hshaped => ⟨fun n t hn => ?_, fun e t he => ?_⟩⟩
  · obtain ⟨stray, rest, hstrays, hmem⟩ := TryClauses.strays_of_unshaped hunshaped
    refine ⟨stray, hmem, ?_⟩
    have hinner : inner = (.error ((AnalysisError.of .clauseOrder stray).within form), s.enter) := by
      change (within form (analyzeTry (a.analyzeForm fuel) form args env)).run.run s.enter = _
      rw [run_within]
      unfold analyzeTry
      dsimp only
      rw [hstrays]
      rfl
    rw [hrun, hinner]
    rfl
  · have hinner : inner =
        (.error ((AnalysisError.of .secondFinally second).within form), s.enter) := by
      change (within form (analyzeTry (a.analyzeForm fuel) form args env)).run.run s.enter = _
      rw [run_within]
      unfold analyzeTry
      rw [TryClauses.split_of_shaped hshaped]
      rfl
    rw [hrun, hinner]
    rfl
  · obtain ⟨hn, -⟩ := Prod.mk.inj (hrun.symm.trans hn)
    exact yields_within form (parts_of_analyzeTry hshaped) s.enter n inner.2 (Prod.ext hn rfl)
  · obtain ⟨he, ht⟩ := Prod.mk.inj (hrun.symm.trans he)
    obtain ⟨e', he', hwithin⟩ := error_of_within (Prod.ext he rfl : inner = (.error e, inner.2))
    exact ⟨e', inner.2, hwithin, ht.symm, tryFails_of_analyzeTry hshaped he'⟩

end Forms

theorem try_clauses_exact_three :
    (∃ e, (Analyzer.analyzeForm { home := .plain "user" } 2
        (.call "try" [.call "finally" [], .nil]) (.empty (.plain "user"))).run.run
          (.start ⟨.empty, .start⟩) = (.error e, .start ⟨.empty, .start⟩) ∧ e.fault = .clauseOrder) ∧
    (∃ e, (Analyzer.analyzeForm { home := .plain "user" } 2
        (.call "try" [.call "finally" [], .call "finally" [.nil]])
        (.empty (.plain "user"))).run.run (.start ⟨.empty, .start⟩) =
          (.error e, .start ⟨.empty, .start⟩) ∧
      e.fault = .secondFinally ∧ e.form = .call "finally" [.nil]) ∧
    ∃ b c d, (Analyzer.analyzeForm { home := .plain "user", checkClasses := false } 2
        (.call "try" [.nil, .call "catch" [.sym "E", .sym "e"], .call "finally" [.nil]])
        (.empty (.plain "user"))).run.run (.start ⟨.empty, .start⟩) =
          (.ok (.of (.tryBlock b [c] (some d))
            (.call "try" [.nil, .call "catch" [.sym "E", .sym "e"], .call "finally" [.nil]])
            (.empty (.plain "user"))), .start ⟨.empty, .start⟩) ∧
      b.form = .call "do" [.nil] ∧ c.form = .call "catch" [.sym "E", .sym "e"] ∧
      d.form = .call "do" [.nil] := by
  have hdepth : 0 < 256 := by decide
  refine ⟨?_, ?_, ?_⟩
  · have hunshaped : ¬∃ body catches finallies,
        TryClauses.Shaped [.call "finally" [], .nil] body catches finallies := by
      rintro ⟨body, catches, finallies, h⟩
      cases TryClauses.split_of_shaped h
    have hexact := @try_clauses_exact { home := .plain "user" } 1 [.call "finally" [], .nil] [] [] _
      (.empty (.plain "user")) rfl rfl (.start ⟨.empty, .start⟩) hdepth
    obtain ⟨stray, -, hrun⟩ := hexact.1 hunshaped
    exact ⟨_, hrun, rfl⟩
  · have hshaped : TryClauses.Shaped [.call "finally" [], .call "finally" [.nil]] [] []
        [.call "finally" [], .call "finally" [.nil]] := ⟨rfl, nofun, nofun, by decide⟩
    exact ⟨_, (try_clauses_exact rfl rfl hdepth).2.1 _ _ _ _ _ hshaped, rfl, rfl⟩
  · obtain ⟨n, h⟩ : ∃ n, (Analyzer.analyzeForm { home := .plain "user", checkClasses := false } 2
        (.call "try" [.nil, .call "catch" [.sym "E", .sym "e"], .call "finally" [.nil]])
        (.empty (.plain "user"))).run.run (.start ⟨.empty, .start⟩) =
          (.ok n, .start ⟨.empty, .start⟩) := ⟨_, rfl⟩
    have hshaped : TryClauses.Shaped
        [.nil, .call "catch" [.sym "E", .sym "e"], .call "finally" [.nil]] [.nil]
        [.call "catch" [.sym "E", .sym "e"]] (some (.call "finally" [.nil])).toList :=
      ⟨rfl, by decide, by decide, by decide⟩
    obtain ⟨b, hs, c, rfl, hb, hhs, hc⟩ :=
      ((try_clauses_exact rfl rfl hdepth).2.2 _ _ _ hshaped).1 n _ h
    cases hc with
    | some hd =>
      cases hhs with
      | cons hhandler hnil =>
        cases hnil
        exact ⟨b, _, _, h, hb.form_eq, hhandler.form_eq, hd.form_eq⟩

end LispFront
