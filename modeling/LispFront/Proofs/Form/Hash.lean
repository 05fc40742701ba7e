import LispFront.Form.Hash
import LispFront.Proofs.Form.Order

/-!
# Hashing and equality agree

Forms feed the same words to a hasher exactly if they are equal. What a form feeds ends where its
shape says, whatever follows, so nothing runs together with what a neighbour feeds.
-/

namespace LispFront

theorem qualifiedFed_append_inj {ns ns' : Option String} {name name' : String}
    {l l' : List HashWord} (h : qualifiedFed ns name ++ l = qualifiedFed ns' name' ++ l') :
    (ns = ns' ∧ name = name') ∧ l = l' := by
  cases ns <;> cases ns' <;> simp_all [qualifiedFed]

theorem Symbol.fed_append_inj {s s' : Symbol} {l l' : List HashWord}
    (h : s.fed ++ l = s'.fed ++ l') : s = s' ∧ l = l' := by
  obtain ⟨⟨hns, hname⟩, hl⟩ := qualifiedFed_append_inj h
  cases s
  cases s'
  exact ⟨Symbol.mk.injEq .. ▸ ⟨hns, hname⟩, hl⟩

theorem Keyword.fed_append_inj {k k' : Keyword} {l l' : List HashWord}
    (h : k.fed ++ l = k'.fed ++ l') : k = k' ∧ l = l' := by
  obtain ⟨⟨hns, hname⟩, hl⟩ := qualifiedFed_append_inj h
  cases k
  cases k'
  exact ⟨Keyword.mk.injEq .. ▸ ⟨hns, hname⟩, hl⟩

theorem VarName.fed_append_inj {v v' : VarName} {l l' : List HashWord}
    (h : v.fed ++ l = v'.fed ++ l') : v = v' ∧ l = l' := by
  rw [fed, fed, List.append_assoc, List.append_assoc] at h
  obtain ⟨hns, h⟩ := Symbol.fed_append_inj h
  obtain ⟨hname, hl⟩ := Symbol.fed_append_inj h
  cases v
  cases v'
  exact ⟨VarName.mk.injEq .. ▸ ⟨hns, hname⟩, hl⟩

namespace Form

theorem elemsFed_bare {es : List Form} (h : ∀ e ∈ es, (bare e).fed = e.fed) :
    elemsFed (bareElems es) = elemsFed es := by
  induction es with
  | nil => rfl
  | cons e es ih =>
    obtain ⟨he, hes⟩ := List.forall_mem_cons.mp h
    rw [bareElems, elemsFed, elemsFed, he, ih hes]

theorem entriesFed_bare {es : List (Form × Form)}
    (h : ∀ e ∈ es, (bare e.1).fed = e.1.fed ∧ (bare e.2).fed = e.2.fed) :
    entriesFed (bareEntries es) = entriesFed es := by
  induction es with
  | nil => rfl
  | cons e es ih =>
    obtain ⟨⟨hk, hv⟩, hes⟩ := List.forall_mem_cons.mp h
    rw [bareEntries, entriesFed, entriesFed, hk, hv, ih hes]

theorem fed_bare (f : Form) : f.bare.fed = f.fed := by
  induction f using induct with
  | list es m ih | vector es m ih | set es m ih =>
    simp only [bare, fed, elemsFed_bare ih, length_bareElems, metadataFed]
  | map es m ih =>
    simp only [bare, fed, entriesFed_bare ih, length_bareEntries, metadataFed]
  | _ => rfl

/-- Where a form ends among the words can be told from the words. -/
def FedApart (f : Form) : Prop :=
  ∀ (g : Form) (l l' : List HashWord), f.fed ++ l = g.fed ++ l' → f.bare = g.bare ∧ l = l'

theorem elemsFed_append_inj {es es' : List Form} {l l' : List HashWord}
    (hes : ∀ e ∈ es, FedApart e) (hlength : es.length = es'.length)
    (h : elemsFed es ++ l = elemsFed es' ++ l') : bareElems es = bareElems es' ∧ l = l' := by
  induction es generalizing es' with
  | nil =>
    obtain rfl := List.length_eq_zero_iff.mp hlength.symm
    exact ⟨rfl, h⟩
  | cons e es ih =>
    obtain ⟨he, hes⟩ := List.forall_mem_cons.mp hes
    cases es' with
    | nil => cases hlength
    | cons e' es' =>
      rw [elemsFed, elemsFed, List.append_assoc, List.append_assoc] at h
      obtain ⟨hbare, h⟩ := he e' _ _ h
      obtain ⟨hbares, hl⟩ := ih hes (Nat.succ.inj hlength) h
      exact ⟨congrArg₂ List.cons hbare hbares, hl⟩

theorem entriesFed_append_inj {es es' : List (Form × Form)} {l l' : List HashWord}
    (hes : ∀ e ∈ es, FedApart e.1 ∧ FedApart e.2) (hlength : es.length = es'.length)
    (h : entriesFed es ++ l = entriesFed es' ++ l') :
    bareEntries es = bareEntries es' ∧ l = l' := by
  induction es generalizing es' with
  | nil =>
    obtain rfl := List.length_eq_zero_iff.mp hlength.symm
    exact ⟨rfl, h⟩
  | cons e es ih =>
    obtain ⟨⟨hk, hv⟩, hes⟩ := List.forall_mem_cons.mp hes
    cases es' with
    | nil => cases hlength
    | cons e' es' =>
      simp only [entriesFed, List.append_assoc] at h
      obtain ⟨hkey, h⟩ := hk e'.1 _ _ h
      obtain ⟨hvalue, h⟩ := hv e'.2 _ _ h
      obtain ⟨hbares, hl⟩ := ih hes (Nat.succ.inj hlength) h
      exact ⟨congrArg₂ List.cons (Prod.ext hkey hvalue) hbares, hl⟩

theorem fedApart (f : Form) : FedApart f := by
  -- the words of one element are followed by those of the next, so the rests go into the induction
  induction f using induct with
  | nil | bool | number | string | char | regex =>
    intro g l l' h
    cases g <;> simp_all [fed, bare]
  | keyword k =>
    intro g l l' h
    cases g with
    | keyword k' =>
      obtain ⟨rfl, hl⟩ := Keyword.fed_append_inj (List.cons.inj h).2
      exact ⟨rfl, hl⟩
    | _ => simp [fed] at h
  | symbol s m =>
    intro g l l' h
    cases g with
    | symbol s' m' =>
      simp only [fed, metadataFed, List.append_nil] at h
      obtain ⟨rfl, hl⟩ := Symbol.fed_append_inj (List.cons.inj h).2
      exact ⟨rfl, hl⟩
    | _ => simp [fed] at h
  | list es m ih | vector es m ih | set es m ih =>
    intro g l l' h
    cases g <;> simp [fed, metadataFed, bare] at h ⊢
    exact elemsFed_append_inj ih h.1 h.2
  | map es m ih =>
    intro g l l' h
    cases g <;> simp [fed, metadataFed, bare] at h ⊢
    exact entriesFed_append_inj ih h.1 h.2
  | var v =>
    intro g l l' h
    cases g with
    | var v' =>
      obtain ⟨rfl, hl⟩ := VarName.fed_append_inj (List.cons.inj h).2
      exact ⟨rfl, hl⟩
    | _ => simp [fed] at h

variable {a b : Form}

/-- Equal forms are the same to a hasher, and no others are. -/
theorem fed_eq_iff_beq : a.fed = b.fed ↔ a == b := by
  constructor
  · intro h
    exact beq_iff_bare.mpr (fedApart a b [] [] (congrArg (· ++ []) h)).1
  · intro h
    rw [← fed_bare a, beq_iff_bare.mp h, fed_bare]

theorem hash_congr (h : Hasher) (hab : a == b) : h.hash a = h.hash b := by
  rw [Hasher.hash, fed_eq_iff_beq.mpr hab, Hasher.hash]

end Form

end LispFront
