import Mathlib.Data.List.Sort
import LispFront.Proofs.Analysis.Calls
import LispFront.Proofs.Analysis.Parameters

/-!
# Overloads of a function

The arities of the methods of a function fit together if at most one method is variadic, no two of
the others take the same number of parameters, and none of them takes more than the variadic one.
Sorting and looking at neighbours finds out whether they do, and blames the smallest repetition.
-/

namespace LispFront

namespace Overloads

def fixed (arities : List (Nat × Bool)) : List Nat := (arities.filter (!·.2)).map (·.1)

def variadic (arities : List (Nat × Bool)) : List Nat := (arities.filter (·.2)).map (·.1)

structure Valid (arities : List (Nat × Bool)) : Prop where
  single : (variadic arities).length ≤ 1
  distinct : (fixed arities).Nodup
  bounded : ∀ f ∈ fixed arities, ∀ v ∈ variadic arities, f ≤ v

/-- What is wrong with the arities; what stands first is complained about first. -/
inductive Faulty (arities : List (Nat × Bool)) : AnalysisFault → Prop
  | secondVariadic : 2 ≤ (variadic arities).length → Faulty arities .secondVariadic
  | duplicateArity {arity : Nat} :
      (variadic arities).length ≤ 1 → 2 ≤ (fixed arities).count arity →
      (∀ arity', 2 ≤ (fixed arities).count arity' → arity ≤ arity') →
      Faulty arities (.duplicateArity arity)
  | fixedExceedsVariadic {max v : Nat} :
      variadic arities = [v] → (fixed arities).Nodup → (fixed arities).max? = some max → v < max →
      Faulty arities (.fixedExceedsVariadic max v)

variable {l : List Nat} {arities : List (Nat × Bool)} {fault : AnalysisFault}

theorem not_nodup_of_count {a : Nat} (h : 2 ≤ l.count a) : ¬l.Nodup := by
  intro hl
  have hone := List.nodup_iff_count_le_one.mp hl a
  omega

theorem Faulty.not_valid (h : Faulty arities fault) : ¬Valid arities := by
  intro hvalid
  cases h with
  | secondVariadic hmany =>
    have hsingle := hvalid.single
    omega
  | duplicateArity _ hcount _ => exact not_nodup_of_count hcount hvalid.distinct
  | fixedExceedsVariadic hv _ hmax hlt =>
    have hmem := (List.max?_eq_some_iff.mp hmax).1
    have hle := hvalid.bounded _ hmem _ (hv ▸ List.mem_singleton_self _)
    omega

theorem not_mem_of_ne {a b : Nat} (hl : (a :: b :: l).Pairwise (· ≤ ·)) (h : a ≠ b) :
    a ∉ b :: l := by
  intro hmem
  obtain ⟨ha, hl⟩ := List.pairwise_cons.mp hl
  have hab := ha b List.mem_cons_self
  have hba : b ≤ a := by
    rcases List.mem_cons.mp hmem with rfl | hmem
    · exact Nat.le_refl a
    · exact (List.pairwise_cons.mp hl).1 a hmem
  omega

theorem nodup_of_firstTwin? (hl : l.Pairwise (· ≤ ·)) (h : firstTwin? l = none) : l.Nodup := by
  induction l with
  | nil => exact List.nodup_nil
  | cons a l ih =>
    cases l with
    | nil => exact List.nodup_singleton a
    | cons b l =>
      by_cases heq : a = b
      · simp [firstTwin?, heq] at h
      · rw [firstTwin?, if_neg heq] at h
        exact List.nodup_cons.mpr ⟨not_mem_of_ne hl heq, ih (List.pairwise_cons.mp hl).2 h⟩

theorem count_of_firstTwin? {a : Nat} (hl : l.Pairwise (· ≤ ·)) (h : firstTwin? l = some a) :
    2 ≤ l.count a ∧ ∀ a', 2 ≤ l.count a' → a ≤ a' := by
  induction l with
  | nil => cases h
  | cons b l ih =>
    cases l with
    | nil => cases h
    | cons c l =>
      obtain ⟨hb, htail⟩ := List.pairwise_cons.mp hl
      by_cases heq : b = c
      · subst heq
        rw [firstTwin?, if_pos rfl] at h
        cases h
        refine ⟨by simp, fun a' ha' => ?_⟩
        have hmem : a' ∈ a :: a :: l := List.count_pos_iff.mp (by omega)
        rcases List.mem_cons.mp hmem with rfl | hmem
        · exact Nat.le_refl _
        · exact hb a' hmem
      · rw [firstTwin?, if_neg heq] at h
        obtain ⟨hcount, hleast⟩ := ih htail h
        have hfirst : (c :: l).count b = 0 := List.count_eq_zero.mpr (not_mem_of_ne hl heq)
        refine ⟨?_, fun a' ha' => ?_⟩
        · rw [List.count_cons]
          omega
        · by_cases hba : b = a'
          · rw [← hba, List.count_cons_self, hfirst] at ha'
            omega
          · rw [List.count_cons_of_ne hba] at ha'
            exact hleast a' ha'

theorem getLast?_mergeSort (l : List Nat) : l.mergeSort.getLast? = l.max? := by
  have hperm := l.mergeSort_perm (· ≤ ·)
  cases hlast : l.mergeSort.getLast? with
  | none =>
    rw [List.getLast?_eq_none_iff] at hlast
    rw [hlast, List.nil_perm] at hperm
    rw [hperm]
    rfl
  | some a =>
    obtain ⟨init, hinit⟩ := List.getLast?_eq_some_iff.mp hlast
    have hsorted := l.pairwise_mergeSort' (· ≤ ·)
    rw [hinit, List.pairwise_append] at hsorted
    symm
    rw [List.max?_eq_some_iff]
    refine ⟨hperm.mem_iff.mp (by simp [hinit]), fun b hb => ?_⟩
    have hmem := hperm.mem_iff.mpr hb
    rw [hinit, List.mem_append, List.mem_singleton] at hmem
    rcases hmem with hmem | rfl
    · exact hsorted.2.2 b hmem a (List.mem_singleton_self a)
    · exact Nat.le_refl b

theorem check_eq (arities : List (Nat × Bool)) : check arities =
    if 1 < (variadic arities).length then .error .secondVariadic
    else match firstTwin? (fixed arities).mergeSort with
      | some arity => .error (.duplicateArity arity)
      | none =>
        match (fixed arities).max?, (variadic arities).head? with
        | some f, some v => if v < f then .error (.fixedExceedsVariadic f v) else .ok (true, some f)
        | max, v => .ok (v.isSome, max) := by
  rw [← getLast?_mergeSort]
  rfl

theorem check_cases (arities : List (Nat × Bool)) :
    (Valid arities ∧ check arities = .ok (!(variadic arities).isEmpty, (fixed arities).max?)) ∨
      ∃ fault, Faulty arities fault ∧ check arities = .error fault := by
  have hperm := (fixed arities).mergeSort_perm (· ≤ ·)
  have hsorted := (fixed arities).pairwise_mergeSort' (· ≤ ·)
  rw [check_eq]
  by_cases hmany : 1 < (variadic arities).length
  · rw [if_pos hmany]
    exact .inr ⟨_, .secondVariadic hmany, rfl⟩
  · have hsingle : (variadic arities).length ≤ 1 := by omega
    rw [if_neg hmany]
    cases htwin : firstTwin? (fixed arities).mergeSort with
    | some arity =>
      have htwice := count_of_firstTwin? hsorted htwin
      simp only [hperm.count_eq] at htwice
      exact .inr ⟨_, .duplicateArity hsingle htwice.1 htwice.2, rfl⟩
    | none =>
      have hdistinct := hperm.nodup_iff.mp (nodup_of_firstTwin? hsorted htwin)
      cases hv : variadic arities with
      | nil =>
        have hvalid : Valid arities := ⟨hsingle, hdistinct, by simp [hv]⟩
        refine .inl ⟨hvalid, ?_⟩
        cases (fixed arities).max? with
        | none => rfl
        | some f => rfl
      | cons v rest =>
        obtain rfl : rest = [] := by simpa [hv] using hsingle
        cases hmax : (fixed arities).max? with
        | none =>
          have hnone := List.max?_eq_none_iff.mp hmax
          exact .inl ⟨⟨hsingle, hdistinct, by simp [hnone]⟩, rfl⟩
        | some f =>
          dsimp only [List.head?_cons]
          by_cases hlt : v < f
          · rw [if_pos hlt]
            exact .inr ⟨_, .fixedExceedsVariadic hv hdistinct hmax hlt, rfl⟩
          · rw [if_neg hlt]
            refine .inl ⟨⟨hsingle, hdistinct, fun f' hf' v' hv' => ?_⟩, rfl⟩
            obtain rfl : v' = v := by simpa [hv] using hv'
            have hle := (List.max?_eq_some_iff.mp hmax).2 f' hf'
            omega

end Overloads

open AnalyzerM
open List (Forall₂)

def Form.declaredArity : Form → Nat × Bool
  | .list (.vector elems _ :: _) _ =>
    ((elems.takeWhile (!isAmpersand ·)).length, elems.any isAmpersand)
  | _ => (0, false)

theorem arity_of_analyzeMethod (recurse : Recurse) (e : Env) (form : Form) :
    Yields (analyzeMethod recurse e form) (·.methodArity = form.declaredArity) := by
  unfold analyzeMethod
  split
  · refine yields_bind (yields_check _ _) fun params hparams => ?_
    obtain ⟨-, hfixed, hvariadic⟩ := Params.of_split hparams
    refine yields_bind yields_true fun bindings _ => ?_
    refine yields_bind yields_true fun id _ => ?_
    refine yields_bind yields_true fun body _ => ?_
    refine yields_pure ?_
    rw [Form.declaredArity, ← hfixed, ← hvariadic]
    rfl
  · exact yields_fail _ _
  · exact yields_fail _ _
  · exact yields_fail _ _

inductive FnArgs : List Form → Option (Form × Binding) → List Form → Prop
  | unnamed {rest : List Form} : (∀ x m tail, rest ≠ .symbol x m :: tail) → FnArgs rest none rest
  | named {x : Symbol} (m : FormMap) (rest : List Form) : x.isBindable →
      FnArgs (.symbol x m :: rest) (some (.symbol x m, { name := x, kind := .fn })) rest

def Env.ofMethods (e : Env) (self : Option (Form × Binding)) (once : Bool) : Env :=
  ((self.elim e fun (_, b) => (e.bind b).withSelf b).leaveTry).withOnce once

theorem functionName_eq {args rest : List Form} {self : Option (Form × Binding)}
    (h : FnArgs args self rest) (form : Form) : functionName form args = pure (self, rest) := by
  cases h with
  | unnamed hrest =>
    unfold functionName
    split
    · rename_i x m tail
      exact absurd rfl (hrest x m tail)
    · rfl
  | named m rest hx =>
    unfold functionName
    dsimp only
    rw [if_pos hx]

def Form.isOnce (head : Form) : Bool := head.metadataValue? "once" == some (.bool true)

theorem wrapMetadata_of_isEmpty (recurse : Recurse) {n : Node}
    (h : n.form.semanticMetadata.isEmpty) : wrapMetadata recurse n = pure n := if_pos h

theorem run_analyzeFn {recurse : Recurse} {form head : Form} {args rest : List Form} {env : Env}
    {self : Option (Form × Binding)} {s t : Analysis} {methods : List Node}
    (hargs : FnArgs args self rest) (hm : form.semanticMetadata.isEmpty)
    (hmethods : ((methodForms rest).mapM
      (analyzeMethod recurse (env.ofMethods self head.isOnce))).run.run s = (.ok methods, t)) :
    (analyzeFn recurse form head args env).run.run s =
      match Overloads.check (methods.map (·.methodArity)) with
      | .ok r =>
        (.ok (.of (.fn (self.map fun (written, b) => .of (.binding b) written env) methods r.1 r.2
          head.isOnce) form env), t)
      | .error fault => (.error (.of fault form), t) := by
  have hrest (e : Env) (he : e = env.ofMethods self head.isOnce) : (do
      let methods ← (methodForms rest).mapM (analyzeMethod recurse e)
      let r ← check form (Overloads.check (methods.map Node.methodArity))
      wrapMetadata recurse (.of (.fn (self.map fun (written, b) => .of (.binding b) written env)
        methods r.1 r.2 head.isOnce) form env)).run.run s =
      match Overloads.check (methods.map Node.methodArity) with
      | .ok r =>
        (.ok (.of (.fn (self.map fun (written, b) => .of (.binding b) written env) methods r.1 r.2
          head.isOnce) form env), t)
      | .error fault => (.error (.of fault form), t) := by
    rw [he, run_bind, hmethods]
    dsimp only
    cases Overloads.check (methods.map Node.methodArity) with
    | error fault => rfl
    | ok r =>
      rw [check, pure_bind, wrapMetadata_of_isEmpty recurse (by exact hm)]
      rfl
  unfold analyzeFn
  rw [functionName_eq hargs, pure_bind]
  cases self with
  | none => exact hrest _ rfl
  | some r => exact hrest _ rfl

section Forms

variable {a : Analyzer} {recurse : Recurse} {args rest : List Form} {self : Option (Form × Binding)}
  {m m' : FormMap} {g : Form} {env : Env} {s t : Analysis} {methods : List Node}

theorem run_analyzeLevel_fn (hargs : FnArgs args self rest)
    (hg : a.expand (.list (.symbol (.plain "fn*") m :: args) m') env = .ok g)
    (heq : g == .list (.symbol (.plain "fn*") m :: args) m')
    (hm : (Form.list (.symbol (.plain "fn*") m :: args) m').semanticMetadata.isEmpty)
    (hmethods : ((methodForms rest).mapM (analyzeMethod recurse
      (env.ofMethods self (Form.symbol (.plain "fn*") m).isOnce))).run.run s = (.ok methods, t)) :
    (a.analyzeLevel recurse (.list (.symbol (.plain "fn*") m :: args) m') env).run.run s =
      match Overloads.check (methods.map Node.methodArity) with
      | .ok r =>
        (.ok (.of (.fn (self.map fun (written, b) => .of (.binding b) written env) methods r.1 r.2
          (Form.symbol (.plain "fn*") m).isOnce) (.list (.symbol (.plain "fn*") m :: args) m') env), t)
      | .error fault => (.error (.of fault (.list (.symbol (.plain "fn*") m :: args) m')), t) := by
  have hhead : SpecialForm.ofHead? (.symbol (.plain "fn*") m) = some .fn :=
    SpecialForm.ofHead?_name .fn m
  rw [analyzeLevel_call recurse hg heq, run_within, Analyzer.analyzeCall, hhead]
  dsimp only
  rw [run_analyzeFn hargs hm hmethods]
  cases Overloads.check (methods.map Node.methodArity) with
  | ok r => rfl
  | error fault =>
    dsimp only
    rw [AnalysisError.within_of]

end Forms

/-- At a depth below the limit, a function whose methods can be analyzed is accepted exactly if their
arities fit together, and a parameter vector exactly if it consists of names, with at most one
ampersand before the last. -/
theorem overloads_exact (a : Analyzer) (fuel : Nat) :
    (∀ args rest self m m' g env s t methods, s.depth < a.maxDepth → FnArgs args self rest →
      a.expand (.list (.symbol (.plain "fn*") m :: args) m') env = .ok g →
      g == .list (.symbol (.plain "fn*") m :: args) m' →
      (Form.list (.symbol (.plain "fn*") m :: args) m').semanticMetadata.isEmpty →
      ((methodForms rest).mapM (analyzeMethod (a.analyzeForm fuel)
        (env.ofMethods self (Form.symbol (.plain "fn*") m).isOnce))).run.run s.enter =
          (.ok methods, t) →
      let form := Form.list (.symbol (.plain "fn*") m :: args) m'
      let arities := (methodForms rest).map Form.declaredArity
      methods.map Node.methodArity = arities ∧
      (Overloads.Valid arities → (a.analyzeForm (fuel + 1) form env).run.run s =
        (.ok (.of (.fn (self.map fun (written, b) => .of (.binding b) written env) methods
          (!(Overloads.variadic arities).isEmpty) (Overloads.fixed arities).max?
          (Form.symbol (.plain "fn*") m).isOnce) form env), t.leave)) ∧
      (¬Overloads.Valid arities → ∃ fault, Overloads.Faulty arities fault ∧
        (a.analyzeForm (fuel + 1) form env).run.run s = (.error (.of fault form), t.leave))) ∧
    ∀ recurse env elems exprs m m',
      let form := Form.list (.vector elems m :: exprs) m'
      (Params.Accepted elems → ∃ bs,
        Forall₂ Params.Reads (elems.filter (!isAmpersand ·)) bs ∧ ∀ s : Analysis,
          (analyzeMethod recurse env form).run.run s =
            match (analyzeBody recurse exprs (((env.withoutSelf.bindMany bs).withContext .ret).withLoop
                (s.names.peek "loop_") bs.length)).run.run { s with names := s.names.advance } with
            | (.ok body, t) =>
              (.ok (.of (.method (s.names.peek "loop_")
                  (((elems.filter (!isAmpersand ·)).zip bs).map fun (p, b) =>
                    .of (.binding b) p env.withoutSelf)
                  (elems.takeWhile (!isAmpersand ·)).length (elems.any isAmpersand) body env.self)
                form env.withoutSelf), t)
            | (.error error, t) => (.error error, t)) ∧
      (¬Params.Accepted elems → ∃ fault, Params.Refused elems fault ∧ ∀ s : Analysis,
        (analyzeMethod recurse env form).run.run s = (.error (.of fault form), s)) := by
  constructor
  · intro args rest self m m' g env s t methods hdepth hargs hg heq hm hmethods form arities
    have harities : methods.map Node.methodArity = arities := by
      have hs := yields_mapM_forall₂ _ (arity_of_analyzeMethod _ _) _ methods t hmethods
      rw [← List.forall₂_eq_eq_eq, List.forall₂_map_left_iff, List.forall₂_map_right_iff]
      exact hs.flip
    have hrun := run_analyzeLevel_fn hargs hg heq hm hmethods
    rw [harities] at hrun
    rw [Analyzer.run_analyzeForm_succ hdepth]
    refine ⟨harities, fun hvalid => ?_, fun hinvalid => ?_⟩
    · rcases Overloads.check_cases arities with ⟨-, hcheck⟩ | ⟨fault, hfault, -⟩
      · rw [hrun, hcheck]
      · exact absurd hvalid hfault.not_valid
    · rcases Overloads.check_cases arities with ⟨hvalid, -⟩ | ⟨fault, hfault, hcheck⟩
      · exact absurd hvalid hinvalid
      · rw [hrun, hcheck]
        exact ⟨fault, hfault, rfl⟩
  · intro recurse env elems exprs m m' form
    exact ⟨run_analyzeMethod_of_accepted recurse env exprs m m',
      run_analyzeMethod_of_refused recurse env exprs m m'⟩

/-- `(fn* ([] nil) ([x & r] nil))` is accepted, `(fn* ([x] nil) ([& r] nil))` is not, and nor are the
parameters `[& x y]`. -/
theorem overloads_exact_two_methods :
    (∃ methods t, (Analyzer.analyzeForm { home := .plain "user" } 2
        (.call "fn*" [.list [.vector [] [], .nil] [],
          .list [.vector [.sym "x", .sym "&", .sym "r"] [], .nil] []])
        (.empty (.plain "user"))).run.run (.start ⟨.empty, .start⟩) =
      (.ok (.of (.fn none methods true (some 0) false)
        (.call "fn*" [.list [.vector [] [], .nil] [],
          .list [.vector [.sym "x", .sym "&", .sym "r"] [], .nil] []])
        (.empty (.plain "user"))), t)) ∧
    (∃ t, (Analyzer.analyzeForm { home := .plain "user" } 2
        (.call "fn*" [.list [.vector [.sym "x"] [], .nil] [],
          .list [.vector [.sym "&", .sym "r"] [], .nil] []])
        (.empty (.plain "user"))).run.run (.start ⟨.empty, .start⟩) =
      (.error (.of (.fixedExceedsVariadic 1 0)
        (.call "fn*" [.list [.vector [.sym "x"] [], .nil] [],
          .list [.vector [.sym "&", .sym "r"] [], .nil] []])), t)) ∧
    ∃ fault, ∀ s : Analysis, (analyzeMethod (Analyzer.analyzeForm { home := .plain "user" } 1)
        (.empty (.plain "user"))
        (.list [.vector [.sym "&", .sym "x", .sym "y"] [], .nil] [])).run.run s =
      (.error (.of fault (.list [.vector [.sym "&", .sym "x", .sym "y"] [], .nil] [])), s) := by
  have hexact := overloads_exact { home := .plain "user" } 1
  have hdepth : (Analysis.start ⟨.empty, .start⟩).depth <
    Analyzer.maxDepth { home := .plain "user" } := by decide
  refine ⟨?_, ?_, ?_⟩
  · obtain ⟨methods, t, hmethods⟩ : ∃ methods t, ((methodForms [.list [.vector [] [], .nil] [],
        .list [.vector [.sym "x", .sym "&", .sym "r"] [], .nil] []]).mapM
      (analyzeMethod (Analyzer.analyzeForm { home := .plain "user" } 1)
        ((Env.empty (.plain "user")).ofMethods none false))).run.run
          (Analysis.start ⟨.empty, .start⟩).enter = (.ok methods, t) := ⟨_, _, rfl⟩
    have hvalid := (hexact.1 _ _ none [] [] _ _ _ _ _ hdepth (.unnamed (by simp)) rfl rfl rfl
      hmethods).2.1
    exact ⟨methods, t.leave, hvalid ⟨by decide, by decide, by decide⟩⟩
  · obtain ⟨methods, t, hmethods⟩ : ∃ methods t, ((methodForms
        [.list [.vector [.sym "x"] [], .nil] [], .list [.vector [.sym "&", .sym "r"] [], .nil] []]).mapM
      (analyzeMethod (Analyzer.analyzeForm { home := .plain "user" } 1)
        ((Env.empty (.plain "user")).ofMethods none false))).run.run
          (Analysis.start ⟨.empty, .start⟩).enter = (.ok methods, t) := ⟨_, _, rfl⟩
    have hinvalid := (hexact.1 _ _ none [] [] _ _ _ _ _ hdepth (.unnamed (by simp)) rfl rfl rfl
      hmethods).2.2
    obtain ⟨fault, hfault, hrun⟩ := hinvalid fun h =>
      absurd (h.bounded 1 (by decide) 0 (by decide)) (by decide)
    cases hfault with
    | secondVariadic hmany => exact absurd hmany (by decide)
    | duplicateArity _ hcount _ => exact absurd (by decide) (Overloads.not_nodup_of_count hcount)
    | fixedExceedsVariadic hv _ hmax _ =>
      cases hv
      cases hmax
      exact ⟨t.leave, hrun⟩
  · have hrefused : ¬Params.Accepted [.sym "&", .sym "x", .sym "y"] := by
      intro h
      obtain ⟨params, bs, hgives⟩ := Params.gives_of_accepted h
      cases hgives.split
    obtain ⟨fault, -, hrun⟩ := (hexact.2 _ _ _ [.nil] [] []).2 hrefused
    exact ⟨fault, hrun⟩

end LispFront
