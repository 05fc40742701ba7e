import LispFront.Analysis.Function
import LispFront.Proofs.Analysis.Yields
import LispFront.Proofs.Span
import Mathlib.Data.List.Forall2

/-!
# Which parameter vectors are accepted

Parameters are symbols that can be bound. An ampersand is no parameter: there may be one, with a
single parameter behind it. A method whose parameters are refused fails before anything else is
looked at; any other method fails only if its body does.
-/

namespace LispFront

open AnalyzerM
open List (Forall₂)

namespace Params

def IsName (f : Form) : Prop := ∃ name m, f = .symbol name m ∧ name.isBindable

def IsParam (f : Form) : Prop := isAmpersand f = false ∧ IsName f

/-- Nothing but parameters, or one ampersand that stands in the last place but one. -/
inductive Accepted : List Form → Prop
  | fixed {elems : List Form} : (∀ p ∈ elems, IsParam p) → Accepted elems
  | variadic {fixed : List Form} {amp last : Form} :
      (∀ p ∈ fixed, IsParam p) → isAmpersand amp → IsParam last → Accepted (fixed ++ [amp, last])

inductive Refused (elems : List Form) : AnalysisFault → Prop
  | secondAmpersand : 2 ≤ elems.countP isAmpersand → Refused elems .secondAmpersand
  | variadicCount {fixed rest : List Form} {amp : Form} :
      elems = fixed ++ amp :: rest → (∀ p ∈ fixed, isAmpersand p = false) → isAmpersand amp →
      (∀ p ∈ rest, isAmpersand p = false) → rest.length ≠ 1 →
      Refused elems (.variadicCount rest.length)
  | badParam {p : Form} :
      p ∈ elems → isAmpersand p = false → ¬IsName p → Refused elems (.badParam p)

variable {elems fixed : List Form} {amp : Form} {params : Params}

theorem ampersand_cases (elems : List Form) :
    (∀ p ∈ elems, isAmpersand p = false) ∨
      ∃ fixed amp rest, elems = fixed ++ amp :: rest ∧ (∀ p ∈ fixed, isAmpersand p = false) ∧
        isAmpersand amp := by
  cases h : elems.find? isAmpersand with
  | none => exact .inl (by simpa using h)
  | some amp =>
    obtain ⟨hamp, fixed, rest, helems, hfixed⟩ := List.find?_eq_some_iff_append.mp h
    exact .inr ⟨fixed, amp, rest, helems, by simpa using hfixed, hamp⟩

theorem takeWhile_of_ampersand (rest : List Form) (h : ∀ p ∈ fixed, isAmpersand p = false)
    (hrest : ∀ a ∈ rest.head?, isAmpersand a) :
    (fixed ++ rest).takeWhile (!isAmpersand ·) = fixed ∧
      (fixed ++ rest).dropWhile (!isAmpersand ·) = rest := by
  have hfixed : ∀ p ∈ fixed, (!isAmpersand p) = true := by simpa using h
  have hstop : ∀ a ∈ rest.head?, (!isAmpersand a) = false := by simpa using hrest
  exact ⟨takeWhile_append_of_stop hfixed hstop, dropWhile_append_of_stop hfixed hstop⟩

theorem split_of_fixed (h : ∀ p ∈ fixed, isAmpersand p = false) :
    split fixed = .ok ⟨fixed, none⟩ := by
  obtain ⟨htake, hdrop⟩ := takeWhile_of_ampersand [] h nofun
  rw [List.append_nil] at htake hdrop
  unfold split
  rw [htake, hdrop]

theorem split_of_ampersand (rest : List Form) (h : ∀ p ∈ fixed, isAmpersand p = false)
    (hamp : isAmpersand amp) :
    split (fixed ++ amp :: rest) =
      if rest.any isAmpersand then .error .secondAmpersand
      else match rest with
        | [p] => .ok ⟨fixed, some p⟩
        | _ => .error (.variadicCount rest.length) := by
  obtain ⟨htake, hdrop⟩ := takeWhile_of_ampersand (amp :: rest) h (by simpa using hamp)
  unfold split
  generalize (fixed ++ amp :: rest).takeWhile (!isAmpersand ·) = before at htake ⊢
  generalize (fixed ++ amp :: rest).dropWhile (!isAmpersand ·) = behind at hdrop ⊢
  subst htake
  subst hdrop
  rfl

theorem of_split (h : split elems = .ok params) :
    params.all = elems.filter (!isAmpersand ·) ∧
      params.fixed = elems.takeWhile (!isAmpersand ·) ∧
      params.variadic.isSome = elems.any isAmpersand := by
  rcases ampersand_cases elems with hnone | ⟨fixed, amp, rest, rfl, hfixed, hamp⟩
  · rw [split_of_fixed hnone] at h
    cases h
    have hfilter : elems.filter (!isAmpersand ·) = elems :=
      List.filter_eq_self.mpr (by simpa using hnone)
    have htake := (takeWhile_of_ampersand [] hnone nofun).1
    rw [List.append_nil] at htake
    refine ⟨?_, htake.symm, ?_⟩
    · rw [hfilter]
      exact List.append_nil elems
    · exact (List.any_eq_false.mpr (by simpa using hnone)).symm
  · rw [split_of_ampersand rest hfixed hamp] at h
    split at h
    · cases h
    · rename_i hrest
      split at h
      · rename_i p
        cases h
        have hp : isAmpersand p = false := by simpa using hrest
        have htake := (takeWhile_of_ampersand [amp, p] hfixed (by simpa using hamp)).1
        have hfilter : fixed.filter (!isAmpersand ·) = fixed :=
          List.filter_eq_self.mpr (by simpa using hfixed)
        refine ⟨?_, htake.symm, ?_⟩
        · simp [all, List.filter_append, hfilter, hamp, hp]
        · simp [hamp]
      · cases h

def Reads (p : Form) (b : Binding) : Prop := ∃ m, p = .symbol b.name m ∧ b.name.isBindable

theorem bindings_cases (variadic : Bool) (i : Nat) (ps : List Form) :
    (∃ bs, bindings variadic i ps = .ok bs ∧ Forall₂ Reads ps bs) ∨
      ∃ p ∈ ps, ¬IsName p ∧ bindings variadic i ps = .error (.badParam p) := by
  induction ps generalizing i with
  | nil => exact .inl ⟨[], rfl, .nil⟩
  | cons p ps ih =>
    by_cases hp : IsName p
    · obtain ⟨name, m, rfl, hname⟩ := hp
      unfold bindings
      dsimp only
      rw [if_pos hname]
      rcases ih (i + 1) with ⟨bs, hbs, hreads⟩ | ⟨q, hq, hqname, hbs⟩
      · rw [hbs]
        exact .inl ⟨_, rfl, .cons ⟨m, rfl, hname⟩ hreads⟩
      · rw [hbs]
        exact .inr ⟨q, List.mem_cons_of_mem _ hq, hqname, rfl⟩
    · refine .inr ⟨p, List.mem_cons_self, hp, ?_⟩
      unfold bindings
      split
      · rename_i name m
        rw [if_neg fun hname => hp ⟨name, m, rfl, hname⟩]
      · rfl

theorem bindings_of_names {ps : List Form} (h : ∀ p ∈ ps, IsName p) (variadic : Bool) (i : Nat) :
    ∃ bs, bindings variadic i ps = .ok bs ∧ Forall₂ Reads ps bs := by
  rcases bindings_cases variadic i ps with hok | ⟨p, hp, hname, -⟩
  · exact hok
  · exact absurd (h p hp) hname

theorem names_of_reads {ps : List Form} {bs : List Binding} (h : Forall₂ Reads ps bs) :
    ∀ p ∈ ps, IsName p := by
  induction h with
  | nil => nofun
  | cons hp _ ih =>
    obtain ⟨m, rfl, hname⟩ := hp
    exact List.forall_mem_cons.mpr ⟨⟨_, m, rfl, hname⟩, ih⟩

structure Gives (elems : List Form) (params : Params) (bs : List Binding) : Prop where
  split : split elems = .ok params
  bindings : bindings params.variadic.isSome 0 params.all = .ok bs
  reads : Forall₂ Reads params.all bs

def GivesFault (elems : List Form) (fault : AnalysisFault) : Prop :=
  split elems = .error fault ∨
    ∃ params, split elems = .ok params ∧
      bindings params.variadic.isSome 0 params.all = .error fault

theorem gives_of_accepted (h : Accepted elems) : ∃ params bs, Gives elems params bs := by
  cases h with
  | fixed h =>
    obtain ⟨bs, hbs, hreads⟩ := bindings_of_names (fun p hp => (h p hp).2) false 0
    rw [← List.append_nil elems] at hbs hreads
    exact ⟨⟨elems, none⟩, bs, split_of_fixed fun p hp => (h p hp).1, hbs, hreads⟩
  | @variadic fixed amp last h hamp hlast =>
    have hnames : ∀ p ∈ fixed ++ [last], IsName p := by
      intro p hp
      rcases List.mem_append.mp hp with hp | hp
      · exact (h p hp).2
      · rw [List.mem_singleton.mp hp]
        exact hlast.2
    obtain ⟨bs, hbs, hreads⟩ := bindings_of_names hnames true 0
    refine ⟨⟨fixed, some last⟩, bs, ?_, hbs, hreads⟩
    rw [split_of_ampersand [last] (fun p hp => (h p hp).1) hamp]
    simp [hlast.1]

theorem accepted_or_refused (elems : List Form) :
    Accepted elems ∨ ∃ fault, Refused elems fault ∧ GivesFault elems fault := by
  rcases ampersand_cases elems with hnone | ⟨fixed, amp, rest, rfl, hfixed, hamp⟩
  · have hsplit := split_of_fixed hnone
    have hall : Params.all ⟨elems, none⟩ = elems := List.append_nil elems
    rcases bindings_cases false 0 elems with ⟨bs, -, hreads⟩ | ⟨p, hp, hname, hbs⟩
    · exact .inl (.fixed fun p hp => ⟨hnone p hp, names_of_reads hreads p hp⟩)
    · rw [← hall] at hbs
      exact .inr ⟨_, .badParam hp (hnone p hp) hname, .inr ⟨_, hsplit, hbs⟩⟩
  · have hsplit := split_of_ampersand rest hfixed hamp
    by_cases hany : rest.any isAmpersand
    · rw [if_pos hany] at hsplit
      have hcount : 0 < rest.countP isAmpersand := List.countP_pos_iff.mpr (List.any_eq_true.mp hany)
      refine .inr ⟨_, .secondAmpersand ?_, .inl hsplit⟩
      rw [List.countP_append, List.countP_cons_of_pos hamp]
      omega
    · rw [if_neg hany] at hsplit
      have hrest : ∀ p ∈ rest, isAmpersand p = false := by simpa using hany
      by_cases hlength : rest.length = 1
      · obtain ⟨last, rfl⟩ := List.length_eq_one_iff.mp hlength
        have hlast := hrest last (List.mem_singleton_self last)
        rcases bindings_cases true 0 (fixed ++ [last]) with ⟨bs, -, hreads⟩ | ⟨p, hp, hname, hbs⟩
        · have hnames := names_of_reads hreads
          refine .inl (.variadic (fun p hp => ⟨hfixed p hp, ?_⟩) hamp ⟨hlast, ?_⟩)
          · exact hnames p (List.mem_append_left _ hp)
          · exact hnames last (List.mem_append_right _ (List.mem_singleton_self last))
        · have hmem : p ∈ fixed ++ [amp, last] ∧ isAmpersand p = false := by
            rcases List.mem_append.mp hp with hp | hp
            · exact ⟨List.mem_append_left _ hp, hfixed p hp⟩
            · rw [List.mem_singleton.mp hp]
              exact ⟨by simp, hlast⟩
          exact .inr ⟨_, .badParam hmem.1 hmem.2 hname, .inr ⟨_, hsplit, hbs⟩⟩
      · refine .inr ⟨_, .variadicCount rfl hfixed hamp hrest hlength, .inl ?_⟩
        rw [hsplit]
        split
        · exact absurd rfl hlength
        · rfl

end Params

open Params

section Methods

variable (recurse : Recurse) (e : Env) {elems : List Form} (exprs : List Form) (m m' : FormMap)

theorem run_analyzeMethod_of_gives {params : Params} {bs : List Binding}
    (h : Gives elems params bs) (s : Analysis) :
    (analyzeMethod recurse e (.list (.vector elems m :: exprs) m')).run.run s =
      match (analyzeBody recurse exprs (((e.withoutSelf.bindMany bs).withContext .ret).withLoop
          (s.names.peek "loop_") bs.length)).run.run { s with names := s.names.advance } with
      | (.ok body, t) =>
        (.ok (.of (.method (s.names.peek "loop_")
            ((params.all.zip bs).map fun (p, b) => .of (.binding b) p e.withoutSelf)
            params.fixed.length params.variadic.isSome body e.self)
          (.list (.vector elems m :: exprs) m') e.withoutSelf), t)
      | (.error error, t) => (.error error, t) := by
  have hlength : ((params.all.zip bs).map fun (p, b) =>
      Node.of (.binding b) p e.withoutSelf).length = bs.length := by
    rw [List.length_map, List.length_zip, h.reads.length_eq, Nat.min_self]
  unfold analyzeMethod
  dsimp only
  rw [h.split, check, pure_bind, h.bindings, check, pure_bind, run_bind, hlength]
  change ((analyzeBody recurse exprs _ >>= _ : AnalyzerM Node).run.run _) = _
  rw [run_bind]
  generalize (analyzeBody recurse exprs _).run.run _ = r
  rcases r with ⟨error | body, t⟩
  · rfl
  · rfl

theorem run_analyzeMethod_of_accepted (h : Accepted elems) :
    ∃ bs, Forall₂ Reads (elems.filter (!isAmpersand ·)) bs ∧ ∀ s : Analysis,
      (analyzeMethod recurse e (.list (.vector elems m :: exprs) m')).run.run s =
        match (analyzeBody recurse exprs (((e.withoutSelf.bindMany bs).withContext .ret).withLoop
            (s.names.peek "loop_") bs.length)).run.run { s with names := s.names.advance } with
        | (.ok body, t) =>
          (.ok (.of (.method (s.names.peek "loop_")
              (((elems.filter (!isAmpersand ·)).zip bs).map fun (p, b) =>
                .of (.binding b) p e.withoutSelf)
              (elems.takeWhile (!isAmpersand ·)).length (elems.any isAmpersand) body e.self)
            (.list (.vector elems m :: exprs) m') e.withoutSelf), t)
        | (.error error, t) => (.error error, t) := by
  obtain ⟨params, bs, hgives⟩ := gives_of_accepted h
  obtain ⟨hall, hfixed, hvariadic⟩ := of_split hgives.split
  rw [← hall, ← hfixed, ← hvariadic]
  exact ⟨bs, hgives.reads, run_analyzeMethod_of_gives recurse e exprs m m' hgives⟩

theorem run_analyzeMethod_of_refused (h : ¬Accepted elems) :
    ∃ fault, Refused elems fault ∧ ∀ s : Analysis,
      (analyzeMethod recurse e (.list (.vector elems m :: exprs) m')).run.run s =
        (.error (.of fault (.list (.vector elems m :: exprs) m')), s) := by
  rcases accepted_or_refused elems with haccepted | ⟨fault, hrefused, hfault⟩
  · exact absurd haccepted h
  · refine ⟨fault, hrefused, fun s => ?_⟩
    unfold analyzeMethod
    dsimp only
    rcases hfault with hsplit | ⟨params, hsplit, hbindings⟩
    · rw [hsplit]
      rfl
    · rw [hsplit, check, pure_bind, hbindings]
      rfl

end Methods

end LispFront
