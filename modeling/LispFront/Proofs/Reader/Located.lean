import Mathlib
import LispFront.Proofs.Form.Occurrences
import LispFront.Proofs.Reader.Compositional
import LispFront.Proofs.Reader.Position

/-!
# Where lists were read

Without metadata marks in the text, a list carries the place of its bracket, a list that a mark
made carries nothing, and no other form carries metadata. The reader keeps books on the places: those
of open brackets and those in the lists that it holds. Opening a bracket enters a new place, and
nothing else does; what is discarded, or lost to an equal key, only leaves.
-/

namespace LispFront

/-- The metadata of a list is the place of a bracket, or the list stands for a mark; other forms
have none. -/
def Form.Placed (atBracket : FormMap → Prop) : Form → Prop
  | .list es m =>
    atBracket m ∨ m = [] ∧ ∃ name ∈ ["quote", "deref", "var"], ∃ f, es = [.sym name, f]
  | f => f.metadata = []

theorem Form.Placed.mono {A B : FormMap → Prop} (hAB : ∀ m, A m → B m) {f : Form}
    (h : f.Placed A) : f.Placed B := by
  cases f with
  | list es m => exact h.imp_left (hAB m)
  | _ => exact h

structure Form.IsLeaf (f : Form) : Prop where
  occurrences : f.occurrences = [f]
  placed (A : FormMap → Prop) : f.Placed A
  listMetadata : f.listMetadata? = none

theorem Token.isLeaf_form {cs : List Char} {f : Form} (h : form cs = .ok f) : f.IsLeaf := by
  unfold form at h
  split at h
  · split at h
    · cases h
      exact ⟨rfl, fun _ => rfl, rfl⟩
    · cases h
  · split at h
    · cases h
      exact ⟨rfl, fun _ => rfl, rfl⟩
    · cases h
      exact ⟨rfl, fun _ => rfl, rfl⟩
    · cases h
      exact ⟨rfl, fun _ => rfl, rfl⟩
    · unfold name at h
      split at h
      · cases h
      · obtain ⟨_, -, rfl⟩ := map_eq_ok.mp h
        exact ⟨rfl, fun _ => rfl, rfl⟩
      · obtain ⟨_, -, rfl⟩ := map_eq_ok.mp h
        exact ⟨rfl, fun _ => rfl, rfl⟩

theorem Token.isLeaf_char {cs : List Char} {f : Form} (h : char cs = .ok f) : f.IsLeaf := by
  unfold char at h
  split at h
  · cases h
    exact ⟨rfl, fun _ => rfl, rfl⟩
  · cases h

theorem Position.metadata_eq (p : Position) : p.metadata =
    [(.key "column", .number (.ofNat p.column)), (.key "line", .number (.ofNat p.line))] := rfl

namespace Frame

def held : Frame → List Form
  | .collecting _ _ elems => elems
  | _ => []

def places : Frame → List Position
  | .collecting .round start _ => [start]
  | _ => []

def isPlain : Frame → Bool
  | .awaiting .metadata _ | .decorating .. => false
  | _ => true

end Frame

def Form.AllPlaced (P : Position → Prop) (f : Form) : Prop :=
  ∀ g ∈ f.occurrences, g.Placed fun m => ∃ p, P p ∧ m = p.metadata

section Forms

variable {P : Position → Prop} {fs : List Form}

theorem Form.allPlaced_of_occurrences {f : Form}
    (h : f.occurrences = f :: fs.flatMap Form.occurrences)
    (hf : f.Placed fun m => ∃ p, P p ∧ m = p.metadata) (hfs : ∀ e ∈ fs, e.AllPlaced P) :
    f.AllPlaced P := by
  intro g hg
  rw [h, List.mem_cons, List.mem_flatMap] at hg
  rcases hg with rfl | ⟨e, he, hg⟩
  · exact hf
  · exact hfs e he g hg

theorem Form.allPlaced_call {name : String} {f : Form} (hname : name ∈ ["quote", "deref", "var"])
    (hf : f.AllPlaced P) : (Form.call name [f]).AllPlaced P := by
  refine allPlaced_of_occurrences (occurrences_list _ _) (.inr ⟨rfl, name, hname, f, rfl⟩) ?_
  refine List.forall_mem_cons.mpr ⟨fun g hg => ?_, by simpa using hf⟩
  rw [List.mem_singleton.mp hg]
  rfl

theorem Form.listMetadata_call (name : String) (f : Form) :
    listMetadata [.call name [f]] = listMetadata [f] := by
  refine (listMetadata_list _ _).trans ?_
  rw [listMetadata_cons]
  exact (zero_add _).trans (zero_add _)

theorem Bracket.gather_placed {b : Bracket} {start : Position} {f : Form}
    (hstart : ∀ p ∈ (Frame.collecting b start fs).places, P p) (hfs : ∀ e ∈ fs, e.AllPlaced P)
    (h : b.gather start fs = .ok f) : f.AllPlaced P ∧ Form.listMetadata [f] ≤
      ↑((Frame.collecting b start fs).places.map Position.metadata) + Form.listMetadata fs := by
  cases b with
  | round =>
    cases h
    have hplaced : Form.Placed (fun m => ∃ p, P p ∧ m = p.metadata) (.list fs start.metadata) :=
      .inl ⟨start, hstart start List.mem_cons_self, rfl⟩
    refine ⟨Form.allPlaced_of_occurrences (Form.occurrences_list _ _) hplaced hfs, ?_⟩
    rw [Form.listMetadata_list]
    exact le_refl _
  | square =>
    cases h
    refine ⟨Form.allPlaced_of_occurrences (Form.occurrences_vector _ _) rfl hfs, ?_⟩
    rw [Form.listMetadata_vector]
    exact Multiset.le_add_left _ _
  | curly =>
    unfold gather at h
    dsimp only at h
    split at h
    · rename_i entries hpairs
      cases h
      have hflat : (entries.flatMap fun e => [e.1, e.2]) = fs := flat_of_pairs hpairs
      have hsub : ((FormMap.ofList entries).flatMap fun e => [e.1, e.2]).Subperm fs := by
        rw [← hflat]
        exact subperm_flatMap (Sorted.ofList_subperm entries) _
      refine ⟨Form.allPlaced_of_occurrences (Form.occurrences_map _ _) rfl
        fun e he => hfs e (hsub.subset he), ?_⟩
      rw [Form.listMetadata_map]
      exact (Form.listMetadata_le hsub).trans (Multiset.le_add_left _ _)
    · cases h
  | hashCurly =>
    cases h
    have hsub : (FormSet.ofList fs).Subperm fs := Sorted.ofList_subperm fs
    refine ⟨Form.allPlaced_of_occurrences (Form.occurrences_set _ _) rfl
      fun e he => hfs e (hsub.subset he), ?_⟩
    rw [Form.listMetadata_set]
    exact (Form.listMetadata_le hsub).trans (Multiset.le_add_left _ _)

end Forms

namespace Stack

def held (s : Stack) : List Form := s.frames.flatMap Frame.held ++ s.forms

def places (s : Stack) : List Position := s.frames.flatMap Frame.places

/-- The places, as metadata, of the open brackets and of the lists that they were closed to. -/
def ledger (s : Stack) : Multiset FormMap :=
  ↑(s.places.map Position.metadata) + Form.listMetadata s.held

/-- No place is said wrongly, and all that are on the books were entered once, before byte `n`. -/
structure Located (P : Position → Prop) (n : Nat) (s : Stack) : Prop where
  plain : ∀ fr ∈ s.frames, fr.isPlain
  places : ∀ p ∈ s.places, P p
  placed : ∀ f ∈ s.held, f.AllPlaced P
  ledger : ∃ entered : List Position, entered.Nodup ∧ (∀ p ∈ entered, P p ∧ p.offset < n) ∧
    s.ledger ≤ ↑(entered.map Position.metadata)

variable {P : Position → Prop} {n n' : Nat} {s t : Stack} {frames : List Frame} {forms : List Form}

theorem Located.mono (h : s.Located P n) (hn : n ≤ n') : s.Located P n' := by
  obtain ⟨entered, hnodup, hentered, hle⟩ := h.ledger
  have hlater : ∀ p ∈ entered, P p ∧ p.offset < n' := fun p hp =>
    ⟨(hentered p hp).1, Nat.lt_of_lt_of_le (hentered p hp).2 hn⟩
  exact ⟨h.plain, h.places, h.placed, entered, hnodup, hlater, hle⟩

theorem Located.after {p : Position} (h : s.Located P p.offset) (c : Char) :
    s.Located P (p.after c).offset := by
  rw [Position.offset_after]
  exact h.mono (Nat.le_add_right _ _)

theorem leave_located {fr : Frame} (fs gs : List Form)
    (h : Located P n ⟨fr :: frames, fs ++ forms⟩)
    (hgs : ∀ g ∈ gs, g.AllPlaced P) (hle : Form.listMetadata gs ≤
      ↑(fr.places.map Position.metadata) + (Form.listMetadata fr.held + Form.listMetadata fs)) :
    Located P n ⟨frames, gs ++ forms⟩ where
  plain := (List.forall_mem_cons.mp h.plain).2
  places p hp := h.places p (List.mem_append_right _ hp)
  placed f hf := by
    simp only [held, List.mem_append] at hf
    rcases hf with hf | hf | hf
    · exact h.placed f (List.mem_append_left _ (List.mem_append_right _ hf))
    · exact hgs f hf
    · exact h.placed f (List.mem_append_right _ (List.mem_append_right _ hf))
  ledger := by
    obtain ⟨entered, hnodup, hentered, hbooks⟩ := h.ledger
    refine ⟨entered, hnodup, hentered, le_trans ?_ hbooks⟩
    simp only [ledger, places, held, List.flatMap_cons, List.map_append, ← Multiset.coe_add,
      Form.listMetadata_append]
    generalize (↑((frames.flatMap Frame.places).map Position.metadata) : Multiset FormMap) = A
    generalize Form.listMetadata (frames.flatMap Frame.held) = B
    generalize Form.listMetadata forms = C
    calc A + (B + (Form.listMetadata gs + C)) = Form.listMetadata gs + (A + B + C) := by ac_rfl
      _ ≤ _ := add_le_add_left hle _
      _ = _ := by ac_rfl

theorem push_located {fr : Frame} (h : s.Located P n) (hplain : fr.isPlain) (hheld : fr.held = [])
    (hnodup : fr.places.Nodup) (hplaces : ∀ p ∈ fr.places, P p ∧ n ≤ p.offset ∧ p.offset < n')
    (hn : n ≤ n') : (s.push fr).Located P n' where
  plain := List.forall_mem_cons.mpr ⟨hplain, h.plain⟩
  places p hp := (List.mem_append.mp hp).elim (fun hp => (hplaces p hp).1) (h.places p)
  placed f hf := by
    rw [held, push, List.flatMap_cons, hheld] at hf
    exact h.placed f hf
  ledger := by
    obtain ⟨entered, hentered, hearlier, hbooks⟩ := h.ledger
    refine ⟨fr.places ++ entered, List.nodup_append.mpr ⟨hnodup, hentered, ?_⟩, ?_, ?_⟩
    · rintro p hp q hq rfl
      exact absurd (hearlier p hq).2 (Nat.not_lt.mpr (hplaces p hp).2.1)
    · intro p hp
      rcases List.mem_append.mp hp with hp | hp
      · exact ⟨(hplaces p hp).1, (hplaces p hp).2.2⟩
      · exact ⟨(hearlier p hp).1, Nat.lt_of_lt_of_le (hearlier p hp).2 hn⟩
    · have hledger : (s.push fr).ledger = ↑(fr.places.map Position.metadata) + s.ledger := by
        simp only [ledger, places, held, push, List.flatMap_cons, hheld, List.nil_append,
          List.map_append, ← Multiset.coe_add, add_assoc]
      rw [hledger, List.map_append, ← Multiset.coe_add]
      exact add_le_add_right hbooks _

theorem located_of_perm (h : s.Located P n) (hplain : ∀ fr ∈ t.frames, fr.isPlain)
    (hplaces : t.places = s.places) (hheld : t.held.Perm s.held) : t.Located P n where
  plain := hplain
  places p hp := h.places p (hplaces ▸ hp)
  placed f hf := h.placed f (hheld.subset hf)
  ledger := by
    have hledger : t.ledger = s.ledger := by
      unfold ledger
      rw [hplaces, Form.listMetadata_perm hheld]
    rw [hledger]
    exact h.ledger

theorem skip_located (h : Located P n ⟨frames, forms⟩) (hskip : skip forms frames = .ok t) :
    t.Located P n := by
  unfold skip at hskip
  split at hskip
  · cases hskip
  · cases hskip
  · cases hskip
    exact h

theorem deliver_located {f : Form} (h : Located P n ⟨frames, f :: forms⟩)
    (hdeliver : deliver forms frames f = .ok t) : t.Located P n := by
  induction frames generalizing f with
  | nil =>
    cases hdeliver
    exact h
  | cons fr frames ih =>
    -- a mark that stands for a list makes one of the form
    have hcall {name : String} (hname : name ∈ ["quote", "deref", "var"])
        (hfr : fr.held = []) (hd : deliver forms frames (.call name [f]) = .ok t) :
        t.Located P n := by
      have hf : f.AllPlaced P := h.placed f (List.mem_append_right _ List.mem_cons_self)
      refine ih (leave_located [f] [.call name [f]] h ?_ ?_) hd
      · exact List.forall_mem_singleton.mpr (Form.allPlaced_call hname hf)
      · rw [Form.listMetadata_call, ← add_assoc]
        exact Multiset.le_add_left _ _
    cases fr with
    | collecting b start elems =>
      cases hdeliver
      refine located_of_perm h (List.forall_mem_cons.mpr ⟨rfl, ?_⟩) ?_ ?_
      · exact (List.forall_mem_cons.mp h.plain).2
      · cases b <;> rfl
      · simp only [held, List.flatMap_cons, Frame.held, List.cons_append]
        exact List.perm_middle.symm
    | awaiting mark start =>
      cases mark with
      | quote => exact hcall (by simp) rfl hdeliver
      | deref => exact hcall (by simp) rfl hdeliver
      | var =>
        cases f with
        | symbol => exact hcall (by simp) rfl hdeliver
        | _ => cases hdeliver
      | discard =>
        refine skip_located (leave_located [f] [] h ?_ ?_) hdeliver
        · exact List.forall_mem_nil _
        · exact Multiset.zero_le _
      | metadata => exact absurd (List.forall_mem_cons.mp h.plain).1 nofun
    | decorating => exact absurd (List.forall_mem_cons.mp h.plain).1 nofun

theorem close_located {closing : Option Char} (h : s.Located P n)
    (hclose : s.close closing = .ok t) : t.Located P n := by
  obtain ⟨frames, forms⟩ := s
  unfold close at hclose
  split at hclose
  · cases hclose
    exact h
  · rename_i b start elems frames hframes
    cases hframes
    split at hclose
    · cases hclose
    · rename_i f hf
      have hstart : ∀ p ∈ (Frame.collecting b start elems.reverse).places, P p := fun p hp =>
        h.places p (List.mem_append_left _ (by cases b <;> exact hp))
      have helems : ∀ e ∈ elems.reverse, e.AllPlaced P := fun e he =>
        h.placed e (List.mem_append_left _ (List.mem_append_left _ (List.mem_reverse.mp he)))
      obtain ⟨hplaced, hle⟩ := Bracket.gather_placed hstart helems hf
      split at hclose
      · refine deliver_located (leave_located [] [f] h ?_ ?_) hclose
        · exact List.forall_mem_singleton.mpr hplaced
        · rw [Form.listMetadata_perm elems.reverse_perm] at hle
          rw [Form.listMetadata_nil, add_zero]
          cases b <;> exact hle
      · cases hclose
  · cases hclose
  · cases hclose

theorem leaf_located {f : Form} (h : Located P n ⟨frames, forms⟩) (hf : f.IsLeaf) :
    Located P n ⟨frames, f :: forms⟩ where
  plain := h.plain
  places := h.places
  placed g hg := by
    simp only [held, List.mem_append, List.mem_cons] at hg
    rcases hg with hg | rfl | hg
    · exact h.placed g (List.mem_append_left _ hg)
    · intro e he
      rw [hf.occurrences] at he
      rw [List.mem_singleton.mp he]
      exact hf.placed _
    · exact h.placed g (List.mem_append_right _ hg)
  ledger := by
    have hleaf : Form.listMetadata [f] = 0 := by
      unfold Form.listMetadata
      rw [List.flatMap_singleton, hf.occurrences, List.filterMap_cons, hf.listMetadata]
      rfl
    have hledger : ledger ⟨frames, f :: forms⟩ = ledger ⟨frames, forms⟩ := by
      simp only [ledger, places, held, Form.listMetadata_append]
      rw [Form.listMetadata_cons, hleaf, zero_add]
    rw [hledger]
    exact h.ledger

end Stack

namespace Reader.State

variable {P : Position → Prop} {n : Nat} {s t : State} {c : Char}

theorem deliver_located {f : Form} (hs : s.stack.Located P n) (hf : f.IsLeaf)
    (h : s.deliver f = .ok t) : t.next = s.next ∧ t.stack.Located P n := by
  obtain ⟨stack, hstack, rfl⟩ := map_eq_ok.mp h
  exact ⟨rfl, Stack.deliver_located (Stack.leaf_located hs hf) hstack⟩

theorem complete_located {start : Position} {r : Except ReadFault Form}
    (hs : s.stack.Located P n) (hr : ∀ f, r = .ok f → f.IsLeaf) (h : s.complete start r = .ok t) :
    t.next = s.next ∧ t.stack.Located P n := by
  cases r with
  | ok f => exact deliver_located hs (hr f rfl) h
  | error fault => cases h

theorem close_located (hs : s.stack.Located P n) (h : s.close c = .ok t) :
    t.stack.Located P n := by
  unfold close at h
  split at h
  · cases h
  · obtain ⟨stack, hstack, rfl⟩ := map_eq_ok.mp h
    exact Stack.close_located hs hstack

theorem openFrame_located {fr : Frame} (hs : s.stack.Located P s.next.offset)
    (hplain : fr.isPlain) (hheld : fr.held = []) (hnodup : fr.places.Nodup)
    (hplaces : ∀ p ∈ fr.places, P p ∧ p = s.next) :
    (s.openFrame fr).stack.Located P (s.next.after c).offset := by
  have hsize := Char.utf8Size_pos c
  rw [Position.offset_after]
  refine Stack.push_located hs hplain hheld hnodup (fun p hp => ?_) (Nat.le_add_right _ _)
  obtain ⟨hP, rfl⟩ := hplaces p hp
  exact ⟨hP, Nat.le_refl _, Nat.lt_add_of_pos_right hsize⟩

theorem begin_located (hs : s.stack.Located P s.next.offset) (hc : c ≠ '^')
    (hP : c = '(' → P s.next) (h : s.begin c = .ok t) :
    t.stack.Located P (s.next.after c).offset := by
  cases begun h with
  | blank | comment | dispatch | char | string | token => exact hs.after _
  | closing _ hclose => exact (close_located hs hclose).after c
  | bracket hb =>
    simp only [List.mem_cons, Prod.mk.injEq, List.not_mem_nil, or_false] at hb
    rcases hb with ⟨rfl, rfl⟩ | ⟨rfl, rfl⟩ | ⟨rfl, rfl⟩
    · exact openFrame_located hs rfl rfl (List.nodup_singleton _)
        (List.forall_mem_singleton.mpr ⟨hP rfl, rfl⟩)
    · exact openFrame_located hs rfl rfl List.nodup_nil (List.forall_mem_nil _)
    · exact openFrame_located hs rfl rfl List.nodup_nil (List.forall_mem_nil _)
  | mark hm =>
    simp only [List.mem_cons, Prod.mk.injEq, List.not_mem_nil, or_false] at hm
    rcases hm with ⟨rfl, rfl⟩ | ⟨rfl, rfl⟩ | ⟨rfl, rfl⟩
    · exact openFrame_located hs rfl rfl List.nodup_nil (List.forall_mem_nil _)
    · exact openFrame_located hs rfl rfl List.nodup_nil (List.forall_mem_nil _)
    · exact absurd rfl hc

theorem dispatch_located {start : Position} (hs : s.stack.Located P s.next.offset)
    (h : s.dispatch start c = .ok t) : t.stack.Located P (s.next.after c).offset := by
  have hopen {fr : Frame} (hplain : fr.isPlain) (hheld : fr.held = []) (hplaces : fr.places = []) :
      (s.openFrame fr).stack.Located P (s.next.after c).offset := by
    refine openFrame_located hs hplain hheld (hplaces ▸ List.nodup_nil) ?_
    rw [hplaces]
    exact List.forall_mem_nil _
  unfold dispatch at h
  split at h
  · cases h
    exact hopen rfl rfl rfl
  · cases h
    exact hs.after _
  · cases h
    exact hopen rfl rfl rfl
  · cases h
    exact hopen rfl rfl rfl
  · cases h

theorem take_located (hs : s.stack.Located P s.next.offset) (hc : c ≠ '^')
    (hP : c = '(' → P s.next) (h : s.take c = .ok t) :
    t.stack.Located P (s.next.after c).offset := by
  have hagain {start : Position} {r : Except ReadFault Form} (hr : ∀ f, r = .ok f → f.IsLeaf)
      (h : (s.complete start r).bind (·.begin c) = .ok t) :
      t.stack.Located P (s.next.after c).offset := by
    obtain ⟨u, hu, ht⟩ := bind_eq_ok.mp h
    obtain ⟨hnext, hstack⟩ := complete_located hs hr hu
    rw [← hnext] at hstack hP ⊢
    exact begin_located hstack hc hP ht
  unfold take at h
  split at h
  · exact begin_located hs hc hP h
  · cases h
    split
    · exact hs.after c
    · exact hs.after c
  · split at h
    · cases h
      exact hs.after c
    · exact hagain (fun f => Token.isLeaf_form) h
  · split at h
    · cases h
      exact hs.after c
    · split at h
      · refine (deliver_located hs ?_ h).2.after c
        exact ⟨rfl, fun _ => rfl, rfl⟩
      · cases h
        exact hs.after c
  · split at h
    · cases h
      exact hs.after c
    · split at h
      · refine (deliver_located hs ?_ h).2.after c
        exact ⟨rfl, fun _ => rfl, rfl⟩
      · cases h
        exact hs.after c
  · exact dispatch_located hs h
  · split at h
    · cases h
      exact hs.after c
    · exact (complete_located hs (fun f => Token.isLeaf_char) h).2.after c
  · split at h
    · cases h
      exact hs.after c
    · exact hagain (fun f => Token.isLeaf_char) h

theorem run_located {seen rest : List Char} (hmark : '^' ∉ rest) (hnext : s.next = .behind seen)
    (hs : s.stack.Located (·.Holds (seen ++ rest) '(') s.next.offset) (h : s.run rest = .ok t) :
    t.stack.Located (·.Holds (seen ++ rest) '(') t.next.offset := by
  induction rest generalizing seen s with
  | nil =>
    cases h
    exact hs
  | cons c rest ih =>
    -- the text as a whole stays the same, only what is seen of it grows
    obtain ⟨hc, hrest⟩ := not_or.mp (mt List.mem_cons.mpr hmark)
    obtain ⟨u, hu, ht⟩ := bind_eq_ok.mp h
    obtain ⟨v, hv, rfl⟩ := map_eq_ok.mp hu
    have htaken := take_located hs (Ne.symm hc) (fun hc => ⟨seen, rest, by rw [hc], hnext⟩) hv
    rw [List.append_cons] at htaken ⊢
    refine ih hrest ?_ htaken ht
    rw [Position.behind_concat, ← hnext]

theorem settle_located (hs : s.stack.Located P n) (h : s.settle = .ok t) :
    t.stack.Located P n := by
  unfold settle at h
  split at h
  · cases h
    exact hs
  · cases h
    exact hs
  · exact (complete_located hs (fun f => Token.isLeaf_form) h).2
  · exact (complete_located hs (fun f => Token.isLeaf_char) h).2
  · cases h
  · cases h
  · cases h
  · cases h

theorem finish_located {fs : List Form} (hs : s.stack.Located P n) (h : s.finish = .ok fs) :
    Stack.Located P n ⟨[], fs.reverse⟩ := by
  obtain ⟨t, ht, hstack⟩ := finish_eq_ok h
  rw [← hstack]
  exact settle_located hs ht

end Reader.State

theorem located_of_read {source : String} {fs : List Form} (hmark : '^' ∉ source.toList)
    (h : read source = .ok fs) : (∀ f ∈ fs, f.AllPlaced (·.Holds source.toList '(')) ∧
      ∃ entered : List Position, entered.Nodup ∧ (∀ p ∈ entered, p.Holds source.toList '(') ∧
        Form.listMetadata fs = ↑(entered.map Position.metadata) := by
  obtain ⟨s, hs, hfinish⟩ := bind_eq_ok.mp h
  have hinitial : Stack.Located (·.Holds ([] ++ source.toList) '(') 0 ⟨[], []⟩ :=
    ⟨List.forall_mem_nil _, List.forall_mem_nil _, List.forall_mem_nil _, [], List.nodup_nil,
      List.forall_mem_nil _, Multiset.zero_le _⟩
  have hnext : Reader.State.initial.next = .behind [] := rfl
  have hrun := Reader.State.run_located hmark hnext hinitial hs
  obtain ⟨-, -, hplaced, entered, hnodup, hentered, hle⟩ :=
    Reader.State.finish_located hrun hfinish
  refine ⟨fun f hf => hplaced f (List.mem_reverse.mpr hf), ?_⟩
  have hbooks : Stack.ledger ⟨[], fs.reverse⟩ = Form.listMetadata fs :=
    (zero_add _).trans (Form.listMetadata_perm fs.reverse_perm)
  rw [hbooks] at hle
  obtain ⟨l, hperm, hsub⟩ := Multiset.coe_le.mp hle
  obtain ⟨entered', hsub', rfl⟩ := List.sublist_map_iff.mp hsub
  exact ⟨entered', hnodup.sublist hsub', fun p hp => (hentered p (hsub'.subset hp)).1,
    (Multiset.coe_eq_coe.mpr hperm).symm⟩

def placeMetadata (line column : Nat) : FormMap :=
  [(.key "column", .number (.ofNat column)), (.key "line", .number (.ofNat line))]

theorem toInt_ofNat_of_standsAt {source : String} {line column : Nat} {c : Char}
    (hsize : source.utf8ByteSize < 2 ^ 63) (h : StandsAt source.toList line column c) :
    (Int64.ofNat line).toInt = line ∧ (Int64.ofNat column).toInt = column := by
  obtain ⟨hline, hcolumn⟩ := h.le
  rw [String.ofList_toList] at hline hcolumn
  exact ⟨Int64.toInt_ofNat_of_lt (Nat.lt_of_le_of_lt hline hsize),
    Int64.toInt_ofNat_of_lt (Nat.lt_of_le_of_lt hcolumn hsize)⟩

/-- Lists know where they were read: each says a place of an opening bracket, but for those that
stand for a mark, no two say the same place, and nothing else carries metadata. The numbers are
those of the place as long as the text is not too long for them. -/
theorem lists_located {source : String} {fs : List Form} (hmark : '^' ∉ source.toList)
    (h : read source = .ok fs) :
    (∀ f ∈ fs.flatMap Form.occurrences, f.Placed fun m => ∃ line column,
      StandsAt source.toList line column '(' ∧ m = placeMetadata line column) ∧
    (∃ places : List (Nat × Nat), places.Nodup ∧
      (∀ p ∈ places, StandsAt source.toList p.1 p.2 '(') ∧
      Form.listMetadata fs = ↑(places.map fun p => placeMetadata p.1 p.2)) ∧
    (source.utf8ByteSize < 2 ^ 63 → (Form.listMetadata fs).Nodup ∧
      ∀ line column, StandsAt source.toList line column '(' →
        (Int64.ofNat line).toInt = line ∧ (Int64.ofNat column).toInt = column) := by
  obtain ⟨hplaced, entered, hnodup, hentered, hbooks⟩ := located_of_read hmark h
  obtain ⟨places, hplaces, hstands, hmeta⟩ : ∃ places : List (Nat × Nat), places.Nodup ∧
      (∀ p ∈ places, StandsAt source.toList p.1 p.2 '(') ∧
      Form.listMetadata fs = ↑(places.map fun p => placeMetadata p.1 p.2) := by
    refine ⟨entered.map fun p => (p.line, p.column), ?_, ?_, ?_⟩
    · refine hnodup.map_on fun p hp q hq hpq => ?_
      obtain ⟨hline, hcolumn⟩ := Prod.mk.inj hpq
      exact (hentered p hp).eq (hentered q hq) hline hcolumn
    · exact List.forall_mem_map.mpr fun p hp => (hentered p hp).standsAt
    · rw [hbooks, List.map_map]
      rfl
  refine ⟨fun f hf => ?_, ⟨places, hplaces, hstands, hmeta⟩, fun hsize => ⟨?_, ?_⟩⟩
  · obtain ⟨g, hg, hf⟩ := List.mem_flatMap.mp hf
    refine (hplaced g hg f hf).mono fun m hm => ?_
    obtain ⟨p, hp, rfl⟩ := hm
    exact ⟨p.line, p.column, hp.standsAt, p.metadata_eq⟩
  · rw [hmeta, Multiset.coe_nodup]
    refine hplaces.map_on fun p hp q hq hpq => ?_
    obtain ⟨hline, hcolumn⟩ := toInt_ofNat_of_standsAt hsize (hstands p hp)
    obtain ⟨hline', hcolumn'⟩ := toInt_ofNat_of_standsAt hsize (hstands q hq)
    simp only [placeMetadata, List.cons.injEq, Prod.mk.injEq, Form.number.injEq, true_and,
      and_true] at hpq
    rw [← hpq.1, hcolumn] at hcolumn'
    rw [← hpq.2, hline] at hline'
    exact Prod.ext (Int.ofNat_inj.mp hline') (Int.ofNat_inj.mp hcolumn')
  · exact fun line column hstands => toInt_ofNat_of_standsAt hsize hstands

/-- Of two equal elements a set keeps the last one. The bracket in the comment counts for nothing,
and the letter before the quote for two bytes. -/
theorem lists_located_in_set :
    ∃ fs, read "#\x7b(a) (a)\x7d;(\n\"é\" '(b)" = .ok fs ∧
      fs = [.set [.list [.sym "a"] (placeMetadata 1 7)] [], .string "é",
        .call "quote" [.list [.sym "b"] (placeMetadata 2 7)]] ∧
      Form.listMetadata fs = {placeMetadata 1 7, placeMetadata 2 7} ∧
      (Form.listMetadata fs).Nodup ∧
      ∀ f ∈ fs.flatMap Form.occurrences, f.Placed fun m => ∃ line column,
        StandsAt "#\x7b(a) (a)\x7d;(\n\"é\" '(b)".toList line column '(' ∧
          m = placeMetadata line column := by
  have hread : read "#\x7b(a) (a)\x7d;(\n\"é\" '(b)" =
      .ok [.set [.list [.sym "a"] (placeMetadata 1 7)] [], .string "é",
        .call "quote" [.list [.sym "b"] (placeMetadata 2 7)]] := by cbv
  obtain ⟨hplaced, -, hnumbers⟩ := lists_located (by decide) hread
  exact ⟨_, hread, rfl, by rfl, (hnumbers (by decide)).1, hplaced⟩

end LispFront
