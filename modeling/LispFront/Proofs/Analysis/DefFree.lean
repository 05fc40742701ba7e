import LispFront.Proofs.Analysis.Counter
import LispFront.Proofs.Form.Source
import LispFront.Proofs.Tree.Equality

/-!
# Forms without definitions

Only definitions intern vars. The parts of a form in which no definition stands have none either,
what its metadata means included, so where nothing is expanded the directory stays as it is.
-/

namespace LispFront

namespace Form

mutual

/-- A call to `def` stands somewhere in the form or in its metadata, quoted or not. -/
def holdsDef : Form → Bool
  | .symbol _ m => entriesHoldDef m
  | .list es m => (Form.list es m).isCallTo "def" || elemsHoldDef es || entriesHoldDef m
  | .vector es m => elemsHoldDef es || entriesHoldDef m
  | .map es m => entriesHoldDef es || entriesHoldDef m
  | .set es m => elemsHoldDef es || entriesHoldDef m
  | _ => false

def elemsHoldDef : List Form → Bool
  | [] => false
  | e :: es => holdsDef e || elemsHoldDef es

def entriesHoldDef : List (Form × Form) → Bool
  | [] => false
  | (k, v) :: es => (holdsDef k || holdsDef v) || entriesHoldDef es

end

theorem elemsHoldDef_eq_false_iff {es : List Form} :
    elemsHoldDef es = false ↔ ∀ e ∈ es, e.holdsDef = false := by
  induction es with
  | nil => simp [elemsHoldDef]
  | cons e es ih => simp [elemsHoldDef, ih]

theorem entriesHoldDef_eq_false_iff {es : List (Form × Form)} :
    entriesHoldDef es = false ↔ ∀ e ∈ es, e.1.holdsDef = false ∧ e.2.holdsDef = false := by
  induction es with
  | nil => simp [entriesHoldDef]
  | cons e es ih => simp [entriesHoldDef, ih]

theorem holdsDef_map {m : FormMap} (h : entriesHoldDef m = false) :
    (Form.map m []).holdsDef = false := by
  simp [holdsDef, h, entriesHoldDef]

section Parts

variable {f x : Form} (h : f.holdsDef = false)
include h

theorem isCallTo_def_of_holdsDef : f.isCallTo "def" = false := by
  cases f with
  | list es m =>
    simp only [holdsDef, Bool.or_eq_false_iff] at h
    exact h.1.1
  | _ => rfl

theorem metadata_of_holdsDef : entriesHoldDef f.metadata = false := by
  cases f with
  | list es m | vector es m | map es m | set es m =>
    simp only [holdsDef, Bool.or_eq_false_iff] at h
    exact h.2
  | symbol s m =>
    simp only [holdsDef] at h
    exact h
  | _ => rfl

theorem elems_of_holdsDef : ∀ e ∈ f.elems, e.holdsDef = false := by
  cases f with
  | list es m =>
    simp only [holdsDef, Bool.or_eq_false_iff] at h
    exact elemsHoldDef_eq_false_iff.mp h.1.2
  | vector es m | set es m =>
    simp only [holdsDef, Bool.or_eq_false_iff] at h
    exact elemsHoldDef_eq_false_iff.mp h.1
  | map es m =>
    simp only [holdsDef, Bool.or_eq_false_iff] at h
    have hes := entriesHoldDef_eq_false_iff.mp h.1
    intro e he
    obtain ⟨entry, hentry, he⟩ := List.mem_flatMap.mp he
    rcases List.mem_pair.mp he with rfl | rfl
    · exact (hes entry hentry).1
    · exact (hes entry hentry).2
  | _ => exact nofun

theorem holdsDef_unquote : (unquote f).holdsDef = false := by
  unfold unquote
  split
  · split
    · exact elems_of_holdsDef h _ (by simp [elems])
    · exact h
  · exact h

end Parts

section Metadata

variable {m m' : FormMap} (h : entriesHoldDef m = false)
include h

theorem entriesHoldDef_of_subset (hsub : m' ⊆ m) : entriesHoldDef m' = false :=
  entriesHoldDef_eq_false_iff.mpr fun e he => entriesHoldDef_eq_false_iff.mp h e (hsub he)

theorem entriesHoldDef_withoutSource : entriesHoldDef m.withoutSource = false :=
  entriesHoldDef_of_subset h (FormMap.without_sublist FormMap.sourceKeys m).subset

theorem entriesHoldDef_insert {k v : Form} (hk : k.holdsDef = false) (hv : v.holdsDef = false) :
    entriesHoldDef (m.insert k v) = false := by
  refine entriesHoldDef_eq_false_iff.mpr fun e he => ?_
  rcases Sorted.mem_insert he with rfl | he
  · exact ⟨hk, hv⟩
  · exact entriesHoldDef_eq_false_iff.mp h e he

theorem holdsDef_of_find? {k v : Form} (hv : m.find? k = some v) : v.holdsDef = false := by
  obtain ⟨e, he, rfl⟩ := Option.map_eq_some_iff.mp hv
  exact (entriesHoldDef_eq_false_iff.mp h e (Sorted.of_find? he).1).2

theorem holdsDef_ofParts (name : Symbol) (doc : Option String) (init : Option Form) :
    entriesHoldDef (Definition.ofParts name m doc init).metadata = false := by
  have hdoc {m' : FormMap} (hm' : entriesHoldDef m' = false) (doc : String) :
      entriesHoldDef (m'.insert (.key "doc") (.string doc)) = false :=
    entriesHoldDef_insert hm' rfl rfl
  unfold Definition.ofParts
  rcases harglists : m.find? (.key "arglists") with _ | f
  · dsimp only
    split
    · exact hdoc h _
    · exact h
  · have hm' : entriesHoldDef (m.insert (.key "arglists") (unquote f)) = false :=
      entriesHoldDef_insert h rfl (holdsDef_unquote (holdsDef_of_find? h harglists))
    dsimp only
    split
    · exact hdoc hm' _
    · exact hm'

theorem holdsDef_metadataExpr (name : Symbol) (doc : Option String) (init : Option Form) :
    (Form.map (Definition.ofParts name m doc init).metadataExpr []).holdsDef = false := by
  have hm := holdsDef_ofParts h name doc init
  refine holdsDef_map ?_
  unfold Definition.metadataExpr
  refine entriesHoldDef_withoutSource ?_
  split
  · rename_i f hf
    have hquoted : (Form.call "quote" [f]).holdsDef = false := by
      change (false || (false || (f.holdsDef || false)) || false) = false
      simp [holdsDef_of_find? hm hf]
    exact entriesHoldDef_insert hm rfl hquoted
  · exact hm

end Metadata

theorem holdsDef_of_hasPart {f x : Form} (hx : f.HasPart x) (h : f.holdsDef = false) :
    x.holdsDef = false := by
  obtain ⟨between, hx⟩ := hx
  induction hx with
  | elem hmem => exact elems_of_holdsDef h _ hmem
  | @inner f c x between hc _ ih =>
    refine ih ?_
    cases hc with
    | collection hmem _ | clause _ hmem _ | method _ hmem | member _ hmem =>
      exact elems_of_holdsDef h c hmem
  | metadata f => exact holdsDef_map (entriesHoldDef_withoutSource (metadata_of_holdsDef h))
  | @definition f name m doc init hmem =>
    have hname := metadata_of_holdsDef (elems_of_holdsDef h _ hmem)
    exact holdsDef_metadataExpr hname name doc init

end Form

open AnalyzerM

theorem onlyDraws_analyzeUpTo {a : Analyzer} (hexpand : ∀ f e, a.expand f e = .ok f)
    (levels : Nat) {form : Form} (h : form.holdsDef = false) (env : Env) :
    (a.analyzeUpTo levels form env).OnlyDraws := by
  induction levels generalizing form env with
  | zero => exact fun s => ⟨s.names, rfl⟩
  | succ levels ih =>
    have hlevel := a.level_analyzeLevel (a.analyzeUpTo levels) form env
    change (a.analyzeLevel (a.analyzeUpTo levels) form env).OnlyDraws
    generalize a.analyzeLevel (a.analyzeUpTo levels) form env = x at hlevel ⊢
    cases hlevel with
    | expander _ herror => exact absurd (herror.symm.trans (hexpand form env)) nofun
    | expansion _ hg hne =>
      cases hg.symm.trans (hexpand form env)
      exact absurd form.beq_refl (ne_true_of_eq_false hne)
    | @construct x _ hx =>
      have hdraws := hx.onlyDraws (Form.isCallTo_def_of_holdsDef h) fun part env hpart =>
        ih (Form.holdsDef_of_hasPart hpart h) env
      refine fun s => preserves_leaving (I := fun t => ∃ names, t = s.withNames names) form ?_ s
        ⟨s.names, rfl⟩
      rintro _ ⟨names, rfl⟩
      exact hdraws (s.withNames names)

end LispFront
