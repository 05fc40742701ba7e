import LispFront.Form.Metadata
import LispFront.Proofs.Form.Order

/-!
# Well-formed forms

The lists that stand for maps, sets and metadata are sorted, at every depth. Forms that are put
together by insertion are well-formed, and so is what is taken out of a well-formed form.
-/

namespace LispFront

abbrev FormMap.Increasing (m : FormMap) : Prop := Sorted.Increasing (fun a b => a.1.cmp b.1) m

namespace Form

/-- Maps, sets and metadata are sorted, at every depth. -/
inductive WellFormed : Form → Prop
  | nil : WellFormed .nil
  | bool (b : Bool) : WellFormed (.bool b)
  | number (n : Int64) : WellFormed (.number n)
  | string (s : String) : WellFormed (.string s)
  | char (c : Char) : WellFormed (.char c)
  | keyword (k : Keyword) : WellFormed (.keyword k)
  | symbol (s : Symbol) {m : FormMap} : m.Increasing → (∀ e ∈ m, WellFormed e.1) →
      (∀ e ∈ m, WellFormed e.2) → WellFormed (.symbol s m)
  | regex (source : String) : WellFormed (.regex source)
  | list {es : List Form} {m : FormMap} : (∀ e ∈ es, WellFormed e) → m.Increasing →
      (∀ e ∈ m, WellFormed e.1) → (∀ e ∈ m, WellFormed e.2) → WellFormed (.list es m)
  | vector {es : List Form} {m : FormMap} : (∀ e ∈ es, WellFormed e) → m.Increasing →
      (∀ e ∈ m, WellFormed e.1) → (∀ e ∈ m, WellFormed e.2) → WellFormed (.vector es m)
  | map {es m : FormMap} : es.Increasing → (∀ e ∈ es, WellFormed e.1) →
      (∀ e ∈ es, WellFormed e.2) → m.Increasing → (∀ e ∈ m, WellFormed e.1) →
      (∀ e ∈ m, WellFormed e.2) → WellFormed (.map es m)
  | set {es : FormSet} {m : FormMap} : Sorted.Increasing Form.cmp es →
      (∀ e ∈ es, WellFormed e) → m.Increasing → (∀ e ∈ m, WellFormed e.1) →
      (∀ e ∈ m, WellFormed e.2) → WellFormed (.set es m)
  | var (v : VarName) : WellFormed (.var v)

end Form

structure FormMap.WellFormed (m : FormMap) : Prop where
  increasing : m.Increasing
  keys : ∀ e ∈ m, e.1.WellFormed
  vals : ∀ e ∈ m, e.2.WellFormed

namespace FormMap.WellFormed

variable {m : FormMap}

theorem empty : FormMap.WellFormed [] := ⟨.nil, by simp, by simp⟩

theorem toForm (h : m.WellFormed) : (Form.map m []).WellFormed :=
  .map h.increasing h.keys h.vals .nil (by simp) (by simp)

theorem symbol (h : m.WellFormed) (s : Symbol) : (Form.symbol s m).WellFormed :=
  .symbol s h.increasing h.keys h.vals

theorem of_metadata {f : Form} (h : f.WellFormed) : f.metadata.WellFormed := by
  cases h with
  | symbol _ hm hk hv => exact ⟨hm, hk, hv⟩
  | list _ hm hk hv => exact ⟨hm, hk, hv⟩
  | vector _ hm hk hv => exact ⟨hm, hk, hv⟩
  | map _ _ _ hm hk hv => exact ⟨hm, hk, hv⟩
  | set _ _ hm hk hv => exact ⟨hm, hk, hv⟩
  | _ => exact .empty

theorem sublist {m' : FormMap} (h : m.WellFormed) (hm : m'.Sublist m) : m'.WellFormed :=
  ⟨h.increasing.sublist hm, fun e he => h.keys e (hm.subset he),
    fun e he => h.vals e (hm.subset he)⟩

theorem insert {k v : Form} (h : m.WellFormed) (hk : k.WellFormed) (hv : v.WellFormed) :
    (m.insert k v).WellFormed := by
  refine ⟨Sorted.insert_increasing _ h.increasing, fun e he => ?_, fun e he => ?_⟩
  · rcases Sorted.mem_insert he with rfl | he
    · exact hk
    · exact h.keys e he
  · rcases Sorted.mem_insert he with rfl | he
    · exact hv
    · exact h.vals e he

theorem merge {new : List (Form × Form)} (h : m.WellFormed)
    (hnew : ∀ e ∈ new, e.1.WellFormed ∧ e.2.WellFormed) : (m.merge new).WellFormed := by
  induction new generalizing m with
  | nil => exact h
  | cons e new ih =>
    obtain ⟨⟨hk, hv⟩, hnew⟩ := List.forall_mem_cons.mp hnew
    exact ih (h.insert hk hv) hnew

theorem withoutSource (h : m.WellFormed) : m.withoutSource.WellFormed := by
  have herase (ks : List String) {m : FormMap} (h : m.WellFormed) :
      (ks.foldl (fun m k => m.erase (.key k)) m).WellFormed := by
    induction ks generalizing m with
    | nil => exact h
    | cons k ks ih => exact ih (h.sublist (Sorted.erase_sublist _ m))
  exact herase _ h

theorem find? {k v : Form} (h : m.WellFormed) (hv : m.find? k = some v) : v.WellFormed := by
  obtain ⟨e, he, rfl⟩ := Option.map_eq_some_iff.mp hv
  exact h.vals e (Sorted.of_find? he).1

end FormMap.WellFormed

namespace Form.WellFormed

variable {f g : Form} {es : List Form}

theorem sym (name : String) : (Form.sym name).WellFormed := FormMap.WellFormed.empty.symbol _

theorem listOf (h : ∀ e ∈ es, e.WellFormed) : (Form.list es []).WellFormed :=
  .list h .nil (by simp) (by simp)

theorem call {name : String} (h : ∀ e ∈ es, e.WellFormed) : (Form.call name es).WellFormed :=
  listOf (List.forall_mem_cons.mpr ⟨sym name, h⟩)

theorem withMetadata? {m : FormMap} (h : f.WellFormed) (hm : m.WellFormed)
    (hg : f.withMetadata? m = some g) : g.WellFormed := by
  obtain ⟨hm, hk, hv⟩ := hm
  cases h with
  | symbol s => cases hg; exact .symbol s hm hk hv
  | list hes => cases hg; exact .list hes hm hk hv
  | vector hes => cases hg; exact .vector hes hm hk hv
  | map hes hek hev => cases hg; exact .map hes hek hev hm hk hv
  | set hes he => cases hg; exact .set hes he hm hk hv
  | _ => cases hg

end Form.WellFormed

end LispFront
