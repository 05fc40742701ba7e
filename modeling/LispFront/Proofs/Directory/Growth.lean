import LispFront.Proofs.Directory.Interning

/-!
# Directories that grow

A directory grows when namespaces are created, vars interned and classes registered. Whatever a name
could be resolved to, it is still resolved to, because no alias gets in the way that was not there
before. Interning the same var in a directory and in what it has grown to keeps the two in step.
-/

namespace LispFront

def Call.keepsAliases : Call → Bool
  | .addAlias .. => false
  | _ => true

namespace Directory

structure Grows (d d' : Directory) : Prop extends Extends d d' where
  unaliased : ∀ ns short, d'.aliasTarget? ns short = d.aliasTarget? ns short

variable {d d' d₁ d₂ : Directory} {ns name : Symbol}

namespace Grows

theorem refl (d : Directory) : d.Grows d :=
  ⟨⟨fun _ n hn => ⟨n, hn, rfl⟩, fun _ _ v hv => ⟨v, hv, rfl⟩, fun _ _ _ h => h, fun _ h => h⟩,
    fun _ _ => rfl⟩

theorem trans (h : d.Grows d₁) (h' : d₁.Grows d₂) : d.Grows d₂ where
  namespaces ns n hn := by
    obtain ⟨n₁, hn₁, hname₁⟩ := h.namespaces ns n hn
    obtain ⟨n₂, hn₂, hname₂⟩ := h'.namespaces ns n₁ hn₁
    exact ⟨n₂, hn₂, hname₂.trans hname₁⟩
  vars ns name v hv := by
    obtain ⟨v₁, hv₁, hid₁⟩ := h.vars ns name v hv
    obtain ⟨v₂, hv₂, hid₂⟩ := h'.vars ns name v₁ hv₁
    exact ⟨v₂, hv₂, hid₂.trans hid₁⟩
  aliases ns short target ht := h'.aliases ns short target (h.aliases ns short target ht)
  classes cls hcls := h'.classes cls (h.classes cls hcls)
  unaliased ns short := (h'.unaliased ns short).trans (h.unaliased ns short)

theorem of_changesOnly (hd : d.Named) (hd' : d'.Named) (h : d.ChangesOnly ns d') :
    d.Grows d' where
  namespaces := found_of_named hd hd' fun ns' hns => by rwa [h.namespaces]
  vars := h.vars
  aliases ns' short target ht := by rwa [h.aliases]
  classes cls hcls := by
    unfold isClass at hcls ⊢
    rwa [h.classes]
  unaliased := h.aliases

theorem create (d : Directory) (ns : Symbol) : d.Grows (d.create ns) where
  namespaces ns' n hn := by
    rw [find?_create]
    split
    · rename_i hns
      simp [← hns.1, hn] at hns
    · exact ⟨n, hn, rfl⟩
  vars ns' name v hv := ⟨v, by rwa [var?_create], rfl⟩
  aliases ns' short target ht := by rwa [aliasTarget?_create]
  classes cls hcls := by rwa [isClass_create]
  unaliased := aliasTarget?_create d ns

theorem registerClass (d : Directory) (cls : Symbol) : d.Grows (d.registerClass cls) where
  namespaces _ n hn := ⟨n, hn, rfl⟩
  vars _ _ v hv := ⟨v, hv, rfl⟩
  aliases _ _ _ h := h
  classes c hc := by
    rw [isClass_registerClass, hc, Bool.or_true]
  unaliased _ _ := rfl

theorem after (hd : d.Consistent) {c : Call} (hc : c.keepsAliases) : d.Grows (d.after c) := by
  rcases h : (d.call c).1 with e | ⟨⟩
  · rw [after_of_error h]
    exact refl d
  · cases c with
    | create ns => exact create d ns
    | addAlias ns short target => cases hc
    | intern ns name metadata =>
      obtain ⟨v, hv⟩ := call_intern_eq_ok h
      exact of_changesOnly hd.named (hd.named.intern hv) (.of_intern hd hv)
    | registerClass cls => exact registerClass d cls

theorem run (hd : d.Consistent) {calls : List Call} (h : ∀ c ∈ calls, c.keepsAliases) :
    d.Grows (d.run calls) ∧ (d.run calls).Consistent := by
  induction calls generalizing d with
  | nil => exact ⟨refl d, hd⟩
  | cons c calls ih =>
    obtain ⟨hc, hcalls⟩ := List.forall_mem_cons.mp h
    obtain ⟨hgrows, hconsistent⟩ := ih (hd.after c) hcalls
    exact ⟨(after hd hc).trans hgrows, hconsistent⟩

section Resolve

variable (h : d.Grows d')
include h

theorem resolveNamespace? {target : Symbol} (ht : d.resolveNamespace? ns name = some target) :
    d'.resolveNamespace? ns name = some target := by
  rw [resolveNamespace?_eq] at ht ⊢
  rw [h.unaliased]
  cases halias : d.aliasTarget? ns name with
  | some t => rwa [halias] at ht
  | none =>
    rw [halias, Option.none_or] at ht
    obtain ⟨n, hn, rfl⟩ := Option.map_eq_some_iff.mp ht
    obtain ⟨n', hn', hname⟩ := h.namespaces name n hn
    rw [Option.none_or, hn', Option.map_some, hname]

theorem resolve? {v : Var} (hv : d.resolve? ns name = some v) :
    ∃ v', d'.resolve? ns name = some v' ∧ v'.id = v.id := by
  rw [resolve?_eq] at hv ⊢
  obtain ⟨home, hhome, hv⟩ := Option.bind_eq_some_iff.mp hv
  obtain ⟨v', hv', hid⟩ := h.vars home (.plain name.name) v hv
  refine ⟨v', ?_, hid⟩
  rw [Option.bind_eq_some_iff]
  refine ⟨home, ?_, hv'⟩
  cases hns : name.ns with
  | none => rwa [hns] at hhome
  | some N =>
    rw [hns] at hhome
    exact h.resolveNamespace? hhome

theorem intern (hd : d.Named) (hd' : d'.Named) {metadata : FormMap} {v : Var}
    (hv : d.intern ns name metadata = .ok (v, d₁)) :
    ∃ d₁', d'.intern ns name metadata = .ok (v, d₁') ∧ d₁.Grows d₁' := by
  obtain ⟨hname, n, hn, hvar, -⟩ := intern_eq_ok.mp hv
  obtain ⟨n', hn', hsame⟩ := h.namespaces ns n hn
  have hv' : d'.intern ns name metadata = .ok (v, d'.put n'.name (n'.addVar name v)) :=
    intern_eq_ok.mpr ⟨hname, n', hn', by rw [hvar, hsame], rfl⟩
  refine ⟨_, hv', ⟨found_of_named (hd.intern hv) (hd'.intern hv') fun ns' hns => ?_,
    fun ns' x w hw => ?_, fun ns' short target ht => ?_, fun cls hcls => ?_⟩, fun ns' short => ?_⟩
  · rw [isSome_find?_of_intern hd' hv']
    rw [isSome_find?_of_intern hd hv] at hns
    obtain ⟨m, hm⟩ := Option.isSome_iff_exists.mp hns
    obtain ⟨m', hm', -⟩ := h.namespaces ns' m hm
    exact Option.isSome_of_mem hm'
  · rw [var?_of_intern hd' hv']
    rw [var?_of_intern hd hv] at hw
    by_cases hx : ns' = ns ∧ x = name
    · rw [if_pos hx] at hw ⊢
      exact ⟨w, hw, rfl⟩
    · rw [if_neg hx] at hw ⊢
      exact h.vars ns' x w hw
  · rw [aliasTarget?_of_intern hd' hv']
    rw [aliasTarget?_of_intern hd hv] at ht
    exact h.aliases ns' short target ht
  · rw [isClass_of_intern hv']
    rw [isClass_of_intern hv] at hcls
    exact h.classes cls hcls
  · rw [aliasTarget?_of_intern hd' hv', aliasTarget?_of_intern hd hv, h.unaliased]

end Resolve

end Grows

theorem name_of_resolve? (hd : d.Consistent) {v : Var} (hv : d.resolve? ns name = some v) :
    v.id.name = .plain name.name := by
  rw [resolve?_eq] at hv
  obtain ⟨home, -, hv⟩ := Option.bind_eq_some_iff.mp hv
  rw [hd.vars home _ v hv]

end Directory

end LispFront
