import LispFront.Proofs.Directory.History

/-!
# Interning vars one after the other

`Interned ns d vs d'` says that interning the vars `vs` in `ns`, in this order, makes `d` into `d'`.
That changes the vars of `ns` and nothing else, and of the vars of one name the last is what counts.
-/

namespace LispFront.Directory

inductive Interned (ns : Symbol) : Directory → List Var → Directory → Prop where
  | nil (d : Directory) : Interned ns d [] d
  | cons {d d₁ d₂ : Directory} {v : Var} {vs : List Var} :
      d.intern ns v.id.name v.metadata = .ok (v, d₁) → Interned ns d₁ vs d₂ →
      Interned ns d (v :: vs) d₂

/-- `d'` differs from `d` in the vars of `ns` at most, and has each var that `d` has. -/
structure ChangesOnly (ns : Symbol) (d d' : Directory) : Prop where
  namespaces : ∀ ns', (d'.find? ns').isSome = (d.find? ns').isSome
  aliases : ∀ ns' short, d'.aliasTarget? ns' short = d.aliasTarget? ns' short
  classes : d'.classes = d.classes
  others : ∀ ns', ns' ≠ ns → d'.find? ns' = d.find? ns'
  vars : ∀ ns' x v, d.var? ns' x = some v → ∃ v', d'.var? ns' x = some v' ∧ v'.id = v.id

namespace ChangesOnly

variable {ns : Symbol} {d d₁ d₂ : Directory}

theorem refl (ns : Symbol) (d : Directory) : ChangesOnly ns d d :=
  ⟨fun _ => rfl, fun _ _ => rfl, rfl, fun _ _ => rfl, fun _ _ v hv => ⟨v, hv, rfl⟩⟩

theorem trans (h : ChangesOnly ns d d₁) (h' : ChangesOnly ns d₁ d₂) : ChangesOnly ns d d₂ where
  namespaces ns' := (h'.namespaces ns').trans (h.namespaces ns')
  aliases ns' short := (h'.aliases ns' short).trans (h.aliases ns' short)
  classes := h'.classes.trans h.classes
  others ns' hns := (h'.others ns' hns).trans (h.others ns' hns)
  vars ns' x v hv := by
    obtain ⟨v₁, hv₁, hid₁⟩ := h.vars ns' x v hv
    obtain ⟨v₂, hv₂, hid₂⟩ := h'.vars ns' x v₁ hv₁
    exact ⟨v₂, hv₂, hid₂.trans hid₁⟩

theorem of_intern {name : Symbol} {metadata : FormMap} {w : Var} (hd : d.Consistent)
    (h : d.intern ns name metadata = .ok (w, d₁)) : ChangesOnly ns d d₁ := by
  refine ⟨isSome_find?_of_intern hd.named h, aliasTarget?_of_intern hd.named h, ?_,
    fun ns' hns => ?_, fun ns' x v hv => ?_⟩
  · obtain ⟨n, -, -, rfl⟩ := exists_put_of_intern h
    rfl
  · obtain ⟨n, hn, -, rfl⟩ := exists_put_of_intern h
    rw [find?_put]
    exact if_neg (hd.named ns n hn ▸ hns)
  · rw [var?_of_intern hd.named h]
    by_cases hx : ns' = ns ∧ x = name
    · obtain ⟨rfl, rfl⟩ := hx
      exact ⟨w, by simp, by rw [id_of_intern hd.named h, hd.vars _ _ _ hv]⟩
    · exact ⟨v, by rw [if_neg hx, hv], rfl⟩

end ChangesOnly

theorem consistent_of_intern {d d' : Directory} {ns name : Symbol} {metadata : FormMap} {v : Var}
    (hd : d.Consistent) (h : d.intern ns name metadata = .ok (v, d')) : d'.Consistent where
  named := hd.named.intern h
  vars ns' x w hw := by
    rw [var?_of_intern hd.named h] at hw
    split at hw
    · rename_i hx
      obtain ⟨rfl, rfl⟩ := hx
      cases hw
      exact id_of_intern hd.named h
    · exact hd.vars ns' x w hw

theorem Consistent.create {d : Directory} (hd : d.Consistent) (ns : Symbol) :
    (d.create ns).Consistent :=
  ⟨hd.named.create ns, fun ns' name v hv => hd.vars ns' name v (by rwa [var?_create] at hv)⟩

theorem Consistent.after {d : Directory} (hd : d.Consistent) (c : Call) :
    (d.after c).Consistent := by
  rcases hc : (d.call c).1 with e | ⟨⟩
  · rwa [after_of_error hc]
  · cases c with
    | create ns => exact hd.create ns
    | addAlias ns short target =>
      have ha := call_addAlias_eq_ok hc
      exact ⟨hd.named.addAlias ha,
        fun ns' name v hv => hd.vars ns' name v (by rwa [var?_of_addAlias hd.named ha] at hv)⟩
    | intern ns name metadata =>
      obtain ⟨v, hv⟩ := call_intern_eq_ok hc
      exact consistent_of_intern hd hv
    | registerClass cls => exact ⟨hd.named, hd.vars⟩

namespace Interned

variable {ns : Symbol} {d d₁ : Directory} {vs : List Var}

theorem changesOnly (h : Interned ns d vs d₁) (hd : d.Consistent) : ChangesOnly ns d d₁ := by
  induction h with
  | nil => exact .refl ns _
  | cons hv _ ih => exact (ChangesOnly.of_intern hd hv).trans (ih (consistent_of_intern hd hv))

theorem consistent (h : Interned ns d vs d₁) (hd : d.Consistent) : d₁.Consistent := by
  induction h with
  | nil => exact hd
  | cons hv _ ih => exact ih (consistent_of_intern hd hv)

theorem id_eq (h : Interned ns d vs d₁) (hd : d.Consistent) :
    ∀ v ∈ vs, v.id = ⟨ns, v.id.name⟩ := by
  induction h with
  | nil => simp
  | cons hv _ ih =>
    exact List.forall_mem_cons.mpr
      ⟨id_of_intern hd.named hv, ih (consistent_of_intern hd hv)⟩

theorem var?_eq (h : Interned ns d vs d₁) (hd : d.Consistent) (x : Symbol) :
    d₁.var? ns x = (vs.reverse.find? (·.id.name = x)).or (d.var? ns x) := by
  induction h with
  | nil => rfl
  | @cons d d₁ d₂ v vs hv _ ih =>
    rw [ih (consistent_of_intern hd hv), var?_of_intern hd.named hv, List.reverse_cons,
      List.find?_append, Option.or_assoc]
    by_cases hx : v.id.name = x
    · simp [hx]
    · simp [hx, Ne.symm hx]

theorem mem_of_changed (h : Interned ns d vs d₁) (hd : d.Consistent) {x : Symbol}
    (hx : d₁.var? ns x ≠ d.var? ns x) : ∃ v ∈ vs, v.id = ⟨ns, x⟩ := by
  rw [h.var?_eq hd] at hx
  cases hv : vs.reverse.find? (·.id.name = x) with
  | none => simp [hv] at hx
  | some v =>
    have hmem := List.mem_reverse.mp (List.mem_of_find?_eq_some hv)
    have hname : v.id.name = x := by simpa using List.find?_some hv
    exact ⟨v, hmem, by rw [h.id_eq hd v hmem, hname]⟩

theorem var?_of_mem (h : Interned ns d vs d₁) (hd : d.Consistent) {v : Var} (hv : v ∈ vs) :
    ∃ w ∈ vs, w.id = v.id ∧ d₁.var? ns v.id.name = some w := by
  have hsome : (vs.reverse.find? (·.id.name = v.id.name)).isSome :=
    List.find?_isSome.mpr ⟨v, List.mem_reverse.mpr hv, by simp⟩
  obtain ⟨w, hw⟩ := Option.isSome_iff_exists.mp hsome
  have hmem := List.mem_reverse.mp (List.mem_of_find?_eq_some hw)
  have hname : w.id.name = v.id.name := by simpa using List.find?_some hw
  refine ⟨w, hmem, by rw [h.id_eq hd w hmem, h.id_eq hd v hv, hname], ?_⟩
  rw [h.var?_eq hd, hw]
  rfl

end Interned

end LispFront.Directory
