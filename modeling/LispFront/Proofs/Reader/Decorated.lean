import LispFront.Proofs.Form.Listing
import LispFront.Proofs.Reader.Prefixed

/-!
# Metadata marks in a row

What a mark says is put into the metadata of the form behind it, over what is there. So of marks in
a row the leftmost one that says something of a key counts, and what the place of the form left in
its metadata counts least.
-/

namespace LispFront

namespace Form

def isMetadata : Form → Bool
  | .map .. | .keyword _ | .symbol .. | .string _ => true
  | _ => false

/-- What the form says of a key behind a metadata mark. -/
def says? (m k : Form) : Option Form :=
  match m with
  | .map entries _ => FormMap.find? entries k
  | .keyword n => if k == .keyword n then some (.bool true) else none
  | .symbol s data => if k == .key "tag" then some (.symbol s data) else none
  | .string s => if k == .key "tag" then some (.string s) else none
  | _ => none

/-- The form is what its text is read as. -/
def Legible (f : Form) : Prop := ∃ g, read f.text = .ok [g] ∧ g == f

def decorations : List Form → String
  | [] => ""
  | m :: ms => "^" ++ m.text ++ " " ++ decorations ms

theorem cmp_bare_right (a b : Form) : cmp a b.bare = cmp a b := by
  rw [← cmp_bare a b.bare, bare_bare, cmp_bare]

end Form

namespace FormMap

theorem find?_bareEntries (m : FormMap) (k : Form) :
    find? (Form.bareEntries m) k = (find? m k).map Form.bare := by
  unfold find?
  rw [Form.bareEntries_eq, Sorted.find?_map]
  simp only [Form.cmp_bare_right, Option.map_map, Function.comp_def]

theorem find?_merge (m : FormMap) {new : FormMap} (hnew : new.Increasing) (k : Form) :
    find? (merge m new) k = (find? new k).or (find? m k) := by
  have hfind := Sorted.find?_insertMany_of_increasing Form.cmp Prod.fst k hnew m
  exact (congrArg (Option.map Prod.snd) hfind).trans Option.map_or

theorem find?_singleton (k k' v : Form) :
    find? [(k', v)] k = if k == k' then some v else none := by
  rw [← Form.cmp_beq_eq]
  unfold find? Sorted.find?
  cases h : k.cmp k' <;> simp

end FormMap

namespace Form

theorem find?_of_asMetadata {m : Form} {entries : FormMap} (h : m.asMetadata? = some entries)
    (k : Form) : FormMap.find? entries k = m.says? k := by
  cases m with
  | map =>
    cases h
    rfl
  | keyword | symbol | string =>
    cases h
    exact FormMap.find?_singleton k _ _
  | _ => cases h

theorem increasing_of_asMetadata {m : Form} {entries : FormMap} (hm : Readable m)
    (h : m.asMetadata? = some entries) : entries.Increasing := by
  cases m with
  | map =>
    cases h
    cases hm with
    | map hes => exact hes
    | spelled hspelled =>
      have hopens : OpensToken '{' := hspelled.opensToken (by simp [text])
      cases hopens .initial
  | keyword | symbol | string =>
    cases h
    exact List.pairwise_singleton _ _
  | _ => cases h

theorem increasing_of_bareEntries {entries entries' : FormMap}
    (h : bareEntries entries' = bareEntries entries) (hincr : entries.Increasing) :
    entries'.Increasing := by
  unfold FormMap.Increasing at hincr ⊢
  rwa [← increasing_bareEntries, h, increasing_bareEntries]

theorem asMetadata_of_bare {m g : Form} {entries : FormMap} (h : g.bare = m.bare)
    (hm : m.asMetadata? = some entries) :
    ∃ entries', g.asMetadata? = some entries' ∧ bareEntries entries' = bareEntries entries := by
  cases alike_of_bare h with
  | map =>
    cases hm
    exact ⟨_, rfl, (Form.map.inj h).1⟩
  | keyword | string =>
    cases h
    exact ⟨_, hm, rfl⟩
  | symbol =>
    cases h
    cases hm
    exact ⟨_, rfl, rfl⟩
  | _ => cases hm

theorem placeAt_of_bare {f g : Form} (h : g.bare = f.bare) (p : Position) :
    g.placeAt p = f.placeAt p := by
  cases alike_of_bare h <;> rfl

theorem withMetadata_of_bare {f g : Form} (h : g.bare = f.bare) (m : FormMap) :
    if f.carriesMetadata then ∃ g', g.withMetadata? m = some g' ∧ g'.bare = f.bare ∧ g'.metadata = m
    else g.withMetadata? m = none := by
  cases alike_of_bare h with
  | symbol | list | vector | map | set => exact ⟨_, rfl, h, rfl⟩
  | _ => rfl

theorem Legible.increasing {m : Form} (h : m.Legible) {entries : FormMap}
    (hentries : m.asMetadata? = some entries) : entries.Increasing := by
  obtain ⟨g, hread, hbeq⟩ := h
  have hbare := beq_iff_bare.mp hbeq
  obtain ⟨entries', hg, hbareEntries⟩ := asMetadata_of_bare hbare hentries
  have hreadable : Readable g := readable_of_read hread g (by simp)
  exact increasing_of_bareEntries hbareEntries.symm (increasing_of_asMetadata hreadable hg)

open Reader.State in
theorem Legible.readsBack {f : Form} (h : f.Legible) : ReadsBack f := by
  obtain ⟨g, hread, hbeq⟩ := h
  have hbare := beq_iff_bare.mp hbeq
  have hreadable : Readable g := readable_of_read hread g (by simp)
  intro p stack
  obtain ⟨g', hbare', hmetadata, hdelivers⟩ := readsBack_of_readable hreadable p stack
  refine ⟨g', hbare'.trans hbare, hmetadata.trans (placeAt_of_bare hbare p), ?_⟩
  rwa [← text_bare f, ← hbare, text_bare]

end Form

namespace Reader.State

theorem readRest_mark {m : Form} (hm : m.Legible) (hmetadata : m.isMetadata) (stack : Stack)
    (p : Position) :
    ∃ entries : FormMap, entries.Increasing ∧
      (∀ k, (FormMap.find? entries k).map Form.bare = (m.says? k).map Form.bare) ∧
      ∀ ys, readRest ⟨p, .between, stack⟩ (("^" ++ m.text ++ " ").toList ++ ys) =
        readRest ⟨("^" ++ m.text ++ " ").toList.foldl .after p, .between,
          stack.push (.decorating entries p)⟩ ys := by
  obtain ⟨entries, hentries⟩ : ∃ entries, m.asMetadata? = some entries := by
    cases m <;> first | exact ⟨_, rfl⟩ | cases hmetadata
  obtain ⟨g, hbare, -, hdelivers⟩ :=
    hm.readsBack (p.after '^') (stack.push (.awaiting .metadata p))
  obtain ⟨entries', hg, hbareEntries⟩ := Form.asMetadata_of_bare hbare hentries
  refine ⟨entries', ?_, fun k => ?_, fun ys => ?_⟩
  · exact Form.increasing_of_bareEntries hbareEntries (hm.increasing hentries)
  · rw [← FormMap.find?_bareEntries, hbareEntries, FormMap.find?_bareEntries,
      Form.find?_of_asMetadata hentries]
  · have htext : ("^" ++ m.text ++ " ").toList = '^' :: (m.text.toList ++ [' ']) := by simp
    have hopen := readRest_cons ⟨p, .between, stack⟩ '^' (m.text.toList ++ ' ' :: ys)
    have hblank (q : Position) (t : Stack) : readRest ⟨q, .between, t⟩ (' ' :: ys) =
        readRest ⟨q.after ' ', .between, t⟩ ys := readRest_cons ⟨q, .between, t⟩ ' ' ys
    rw [htext, List.cons_append, List.append_assoc, List.singleton_append]
    refine (hopen.trans (hdelivers _ (by simp [Breaks]))).trans ?_
    simp only [Stack.push, Stack.deliver, hg, List.foldl_cons, List.foldl_append, List.foldl_nil]
    exact hblank _ _

section Marks

variable {ms : List Form} {f : Form} (hms : ∀ m ∈ ms, m.isMetadata ∧ m.Legible)
  (hf : f.Legible)
include hms hf

theorem delivers_decorated (hcarries : f.carriesMetadata) (p : Position) (stack : Stack) :
    ∃ g : Form, g.bare = f.bare ∧
      (∀ k, (FormMap.find? g.metadata k).map Form.bare =
        ((ms.findSome? (·.says? k)).or (FormMap.find?
          (f.placeAt ((Form.decorations ms).toList.foldl .after p)) k)).map Form.bare) ∧
      Delivers stack p ((Form.decorations ms).toList ++ f.text.toList) g := by
  induction ms generalizing p stack with
  | nil =>
    obtain ⟨g, hbare, hmetadata, hdelivers⟩ := hf.readsBack p stack
    refine ⟨g, hbare, fun k => ?_, hdelivers⟩
    rw [hmetadata]
    rfl
  | cons m ms ih =>
    obtain ⟨⟨hmetadata, hm⟩, hms⟩ := List.forall_mem_cons.mp hms
    obtain ⟨entries, hincr, hsays, hmark⟩ := readRest_mark hm hmetadata stack p
    obtain ⟨g, hbare, hg, hdelivers⟩ := ih hms _ (stack.push (.decorating entries p))
    have hwith := Form.withMetadata_of_bare hbare (FormMap.merge g.metadata entries)
    rw [if_pos hcarries] at hwith
    obtain ⟨g', hg', hbare', hmetadata'⟩ := hwith
    rw [Form.decorations, String.toList_append, List.append_assoc]
    refine ⟨g', hbare', fun k => ?_, fun ys hys => ?_⟩
    · rw [hmetadata', FormMap.find?_merge _ hincr, Option.map_or, hsays, hg, List.findSome?_cons,
        List.foldl_append]
      cases m.says? k <;> rfl
    · rw [List.append_assoc, hmark, hdelivers ys hys]
      simp only [Stack.push, Stack.deliver, hg', List.foldl_append]

theorem fail_decorated (hcarries : ¬f.carriesMetadata) (hne : ms ≠ []) (p : Position)
    (stack : Stack) : ∃ g : Form, g.bare = f.bare ∧
      readRest ⟨p, .between, stack⟩ ((Form.decorations ms).toList ++ f.text.toList) =
        LispFront.fail stack.frames p (.invalidMetadataTarget g) := by
  induction ms generalizing p stack with
  | nil => exact absurd rfl hne
  | cons m ms ih =>
    obtain ⟨⟨hmetadata, hm⟩, hms⟩ := List.forall_mem_cons.mp hms
    obtain ⟨entries, -, -, hmark⟩ := readRest_mark hm hmetadata stack p
    rw [Form.decorations, String.toList_append, List.append_assoc, hmark]
    cases ms with
    | nil =>
      obtain ⟨g, hbare, -, hdelivers⟩ := hf.readsBack
        (("^" ++ m.text ++ " ").toList.foldl .after p) (stack.push (.decorating entries p))
      have hwith := Form.withMetadata_of_bare hbare (FormMap.merge g.metadata entries)
      rw [if_neg hcarries] at hwith
      have hread := hdelivers [] (by simp)
      rw [List.append_nil] at hread
      refine ⟨g, hbare, hread.trans ?_⟩
      simp only [Stack.push, Stack.deliver, hwith]
      rfl
    | cons m' ms => exact ih hms (List.cons_ne_nil m' ms) _ (stack.push (.decorating entries p))

end Marks

end Reader.State

open Reader State

theorem beq_of_map_bare {a b : Option Form} (h : a.map Form.bare = b.map Form.bare) :
    (a == b) = true := by
  cases a <;> cases b
  case none.none => rfl
  case some.some f g => exact Form.beq_iff_bare.mpr (Option.some.inj h)
  case none.some | some.none => cases h

theorem read_of_delivers {s : String} {g : Form} (h : Delivers ⟨[], []⟩ .start s.toList g) :
    read s = .ok [g] := by
  have hread := h [] (by simp)
  rwa [List.append_nil] at hread

/-- Behind metadata marks a form is read with what the marks say of each key, the leftmost one
first, and behind all of them with what its place says; or the first mark is at fault, if the form
is of a kind without metadata. -/
theorem read_decorations {ms : List Form} {f : Form} (hne : ms ≠ [])
    (hms : ∀ m ∈ ms, m.isMetadata ∧ m.Legible) (hf : f.Legible) :
    (∃ g, read f.text = .ok [g] ∧ g == f ∧ g.metadata = f.placeAt .start) ∧
      if f.carriesMetadata then
        ∃ g, read (Form.decorations ms ++ f.text) = .ok [g] ∧ g == f ∧ ∀ k,
          FormMap.find? g.metadata k == (ms.findSome? (·.says? k)).or
            (FormMap.find? (f.placeAt (.behind (Form.decorations ms).toList)) k)
      else ∃ g, read (Form.decorations ms ++ f.text) = .error ⟨.invalidMetadataTarget g, 0⟩ ∧
        g == f := by
  constructor
  · obtain ⟨g, hbare, hmetadata, hdelivers⟩ := hf.readsBack .start ⟨[], []⟩
    exact ⟨g, read_of_delivers hdelivers, Form.beq_iff_bare.mpr hbare, hmetadata⟩
  · split
    · rename_i hcarries
      obtain ⟨g, hbare, hg, hdelivers⟩ := delivers_decorated hms hf hcarries .start ⟨[], []⟩
      rw [← String.toList_append] at hdelivers
      refine ⟨g, read_of_delivers hdelivers, Form.beq_iff_bare.mpr hbare, fun k => ?_⟩
      exact beq_of_map_bare (hg k)
    · rename_i hcarries
      obtain ⟨g, hbare, hread⟩ := fail_decorated hms hf hcarries hne .start ⟨[], []⟩
      rw [← String.toList_append] at hread
      exact ⟨g, hread, Form.beq_iff_bare.mpr hbare⟩

theorem read_decorations_of_keys :
    (∃ g, read "^\x7b:a x\x7d ^:a ^s (y)" = .ok [g] ∧ g == .list [.sym "y"] [] ∧
      FormMap.find? g.metadata (.key "a") == some (.sym "x") ∧
      FormMap.find? g.metadata (.key "tag") == some (.sym "s") ∧
      FormMap.find? g.metadata (.key "column") == some (.number 16)) ∧
    ∃ g, read "^\x7b:a x\x7d ^:a ^s nil" = .error ⟨.invalidMetadataTarget g, 0⟩ ∧ g == .nil := by
  have hlegible : ∀ m ∈ [Form.map [(.key "a", .sym "x")] [], .key "a", .sym "s"],
      m.isMetadata ∧ m.Legible := by
    intro m hm
    simp only [List.mem_cons, List.not_mem_nil, or_false] at hm
    rcases hm with rfl | rfl | rfl <;> exact ⟨rfl, _, rfl, rfl⟩
  have hlist : (Form.list [.sym "y"] []).Legible := ⟨_, rfl, rfl⟩
  have hnil : Form.nil.Legible := ⟨_, rfl, rfl⟩
  have hmarks : Form.decorations [.map [(.key "a", .sym "x")] [], .key "a", .sym "s"] =
      "^\x7b:a x\x7d ^:a ^s " := rfl
  have hdecorated := (read_decorations (List.cons_ne_nil _ _) hlegible hlist).2
  have hfails := (read_decorations (List.cons_ne_nil _ _) hlegible hnil).2
  rw [if_pos (by decide), hmarks] at hdecorated
  rw [if_neg (by decide), hmarks] at hfails
  obtain ⟨g, hread, hg, hk⟩ := hdecorated
  exact ⟨⟨g, hread, hg, hk (.key "a"), hk (.key "tag"), hk (.key "column")⟩, hfails⟩

end LispFront
