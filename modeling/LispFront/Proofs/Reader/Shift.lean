import LispFront.Proofs.Reader.Position
import LispFront.Proofs.Reader.Running
import LispFront.Proofs.Related

/-!
# Reading the same text in another place

The reader takes a text from a fresh start, and the same text from further on, above a stack that
collects forms. As long as the first run goes on, so does the second, and what it has above that
stack is what the first has: the places of open frames are moved by the same number of bytes, and
forms differ in metadata at most. The failures agree too, though a frame below may take the blame;
only a closing bracket that has nothing to close may have something to close below.
-/

namespace LispFront

open List (Forall₂)

def ReadFault.bare : ReadFault → ReadFault
  | .varNeedsSymbol f => .varNeedsSymbol f.bare
  | .invalidMetadata f => .invalidMetadata f.bare
  | .invalidMetadataTarget f => .invalidMetadataTarget f.bare
  | fault => fault

theorem Form.alike_of_bare {f g : Form} (h : f.bare = g.bare) : f.Alike g := by
  have hrank (f : Form) : f.bare.rank = f.rank := by cases f <;> rfl
  apply alike_of_rank_eq
  rw [← hrank f, ← hrank g, h]

theorem Form.bare_call (name : String) {f g : Form} (h : f.bare = g.bare) :
    (call name [f]).bare = (call name [g]).bare := by
  simp [call, bare, bareElems, h]

theorem pairs_bare (es : List Form) :
    pairs (es.map Form.bare) = (pairs es).map Form.bareEntries := by
  fun_induction pairs es with
  | case1 => rfl
  | case2 => rfl
  | case3 a b l ih =>
    rw [List.map_cons, List.map_cons, pairs, ih]
    cases pairs l <;> rfl

theorem FormMap.ofList_bare (es : List (Form × Form)) :
    FormMap.ofList (Form.bareEntries es) = Form.bareEntries (FormMap.ofList es) := by
  rw [Form.bareEntries_eq, Form.bareEntries_eq]
  exact Sorted.ofList_map (fun a b => Form.cmp_bare a.1 b.1) es

theorem FormSet.ofList_bare (es : List Form) :
    FormSet.ofList (es.map Form.bare) = (FormSet.ofList es).map Form.bare :=
  Sorted.ofList_map Form.cmp_bare es

theorem Bracket.gather_bare (b : Bracket) (start start' : Position) (es : List Form) :
    (b.gather start (es.map Form.bare)).map Form.bare = (b.gather start' es).map Form.bare := by
  have hbare (l : List Form) : (l.map Form.bare).map Form.bare = l.map Form.bare := by
    simp [Function.comp_def, Form.bare_bare]
  cases b with
  | round | square => simp only [gather, Except.map, Form.bare, Form.bareElems_eq, hbare]
  | curly =>
    rw [gather, gather, pairs_bare]
    cases pairs es with
    | none => rfl
    | some entries =>
      have hentries : Form.bareEntries (Form.bareEntries (FormMap.ofList entries)) = _ :=
        Form.bareEntries_bare fun e _ => ⟨Form.bare_bare e.1, Form.bare_bare e.2⟩
      simp only [Option.map_some, FormMap.ofList_bare, Except.map, Form.bare, hentries]
  | hashCurly =>
    simp only [gather, FormSet.ofList_bare, Except.map, Form.bare, Form.bareElems_eq, hbare]

theorem Bracket.gather_congr (b : Bracket) (start start' : Position) {es es' : List Form}
    (h : es.map Form.bare = es'.map Form.bare) :
    (∃ fault, b.gather start es = .error fault ∧ b.gather start' es' = .error fault) ∨
      ∃ f g, b.gather start es = .ok f ∧ b.gather start' es' = .ok g ∧ f.bare = g.bare := by
  have hmap : (b.gather start es).map Form.bare = (b.gather start' es').map Form.bare := by
    rw [← b.gather_bare start, h, b.gather_bare start start']
  cases hf : b.gather start es <;> cases hg : b.gather start' es' <;> rw [hf, hg] at hmap
  case error.error fault fault' =>
    cases hmap
    exact .inl ⟨fault, rfl, rfl⟩
  case ok.ok f g => exact .inr ⟨f, g, rfl, rfl, Except.ok.inj hmap⟩
  case error.ok | ok.error => cases hmap

variable {d : Nat}

def Position.Moved (d : Nat) (p q : Position) : Prop := q.offset = d + p.offset

theorem Position.Moved.after {p q : Position} (h : p.Moved d q) (c : Char) :
    (p.after c).Moved d (q.after c) := by
  unfold Position.Moved at h ⊢
  rw [Position.offset_after, Position.offset_after, h, Nat.add_assoc]

inductive Frame.Moved (d : Nat) : Frame → Frame → Prop
  | collecting (b : Bracket) {p q : Position} {elems elems' : List Form} : p.Moved d q →
      elems.map Form.bare = elems'.map Form.bare →
      Moved d (.collecting b p elems) (.collecting b q elems')
  | awaiting (mark : Mark) {p q : Position} : p.Moved d q →
      Moved d (.awaiting mark p) (.awaiting mark q)
  | decorating (m m' : FormMap) {p q : Position} : p.Moved d q →
      Moved d (.decorating m p) (.decorating m' q)

theorem blame_moved {p q : Position} {frames frames' : List Frame} (h : p.Moved d q)
    (hframes : Forall₂ (Frame.Moved d) frames frames') :
    (blame p frames).Moved d (blame q frames') := by
  induction hframes generalizing p q with
  | nil => exact h
  | cons hfr _ ih =>
    apply ih
    cases hfr with
    | collecting b hp _ =>
      cases b with
      | hashCurly => exact hp
      | _ => exact h
    | awaiting _ hp => exact hp
    | decorating _ _ hp => exact hp

def blameOffset (n : Nat) : List Frame → Nat
  | [] => n
  | f :: fs => blameOffset ((f.blamed?.map (·.offset)).getD n) fs

theorem offset_blame (p : Position) (frames : List Frame) :
    (blame p frames).offset = blameOffset p.offset frames := by
  induction frames generalizing p with
  | nil => rfl
  | cons f frames ih =>
    rw [blame, blameOffset, ih]
    cases f.blamed? <;> rfl

theorem blame_append (p : Position) (frames frames' : List Frame) :
    blame p (frames ++ frames') = blame (blame p frames) frames' := by
  induction frames generalizing p with
  | nil => rfl
  | cons f frames ih => exact ih _

theorem Stack.blameOffset_giveAll (base : Stack) (gs : List Form) (n : Nat) :
    blameOffset n (base.giveAll gs).frames = blameOffset n base.frames := by
  induction gs generalizing base with
  | nil => rfl
  | cons g gs ih =>
    refine (ih (base.give g)).trans ?_
    obtain ⟨frames, forms⟩ := base
    cases frames with
    | nil => rfl
    | cons fr frames =>
      cases fr with
      | collecting b start elems => cases b <;> rfl
      | awaiting | decorating => rfl

/-- The second of two outcomes is what the first leads to expect of a run above `base`: a result
that fits, or the same fault `d` bytes further on, for which `base` may take the blame. A bracket
that closes nothing above the bottom of the stack may close a frame of `base`. -/
inductive Follows (d : Nat) (base : Stack) (R : α → β → Prop) :
    Except ReadError α → Except ReadError β → Prop
  | ok {a : α} {b : β} : R a b → Follows d base R (.ok a) (.ok b)
  | error {e e' : ReadError} : e'.fault.bare = e.fault.bare →
      e'.offset = blameOffset (d + e.offset) base.frames → Follows d base R (.error e) (.error e')
  | below {c : Char} {n : Nat} {r : Except ReadError β} : base.frames ≠ [] →
      Follows d base R (.error ⟨.unexpected c, n⟩) r

section Follows

variable {α : Type u} {β : Type v} {γ : Type w} {δ : Type x} {base : Stack} {R : α → β → Prop}
  {S : γ → δ → Prop} {r : Except ReadError α} {r' : Except ReadError β}

theorem follows_bind {f : α → Except ReadError γ} {g : β → Except ReadError δ}
    (h : Follows d base R r r') (hfg : ∀ a b, R a b → Follows d base S (f a) (g b)) :
    Follows d base S (r.bind f) (r'.bind g) := by
  cases h with
  | ok hab => exact hfg _ _ hab
  | error hfault hoffset => exact .error hfault hoffset
  | below hbase => exact .below hbase

theorem follows_map {f : α → γ} {g : β → δ} (h : Follows d base R r r')
    (hfg : ∀ a b, R a b → S (f a) (g b)) : Follows d base S (r.map f) (r'.map g) := by
  cases h with
  | ok hab => exact .ok (hfg _ _ hab)
  | error hfault hoffset => exact .error hfault hoffset
  | below hbase => exact .below hbase

end Follows

namespace Stack

inductive Above (d : Nat) (base : Stack) : Stack → Stack → Prop
  | intro {frames frames' : List Frame} {forms gs : List Form} :
      Forall₂ (Frame.Moved d) frames frames' → gs.map Form.bare = forms.reverse.map Form.bare →
      Above d base ⟨frames, forms⟩ ⟨frames' ++ (base.giveAll gs).frames, (base.giveAll gs).forms⟩

theorem receptive_giveAll {base : Stack} (h : base.Receptive) (gs : List Form) :
    (base.giveAll gs).Receptive := by
  induction gs generalizing base with
  | nil => exact h
  | cons g gs ih => exact ih (receptive_give h g)

theorem giveAll_concat (base : Stack) (gs : List Form) (g : Form) :
    base.giveAll (gs ++ [g]) = (base.giveAll gs).give g := by
  simp [giveAll]

section Above

variable {base : Stack} {frames frames' : List Frame} {forms gs : List Form}
  (hframes : Forall₂ (Frame.Moved d) frames frames')
include hframes

theorem follows_fail {R : α → β → Prop} {p q : Position} {fault fault' : ReadFault}
    (h : p.Moved d q) (hfault : fault'.bare = fault.bare) :
    Follows d base R (fail frames p fault)
      (fail (frames' ++ (base.giveAll gs).frames) q fault') := by
  refine .error hfault ?_
  have hmoved : (blame q frames').offset = d + (blame p frames).offset := blame_moved h hframes
  rw [blame_append, offset_blame, hmoved, blameOffset_giveAll]

variable (hbase : base.Receptive) (hforms : gs.map Form.bare = forms.reverse.map Form.bare)
include hbase hforms

theorem follows_skip :
    Follows d base (Above d base) (skip forms frames)
      (skip (base.giveAll gs).forms (frames' ++ (base.giveAll gs).frames)) := by
  cases hframes with
  | nil =>
    have hskip : skip (base.giveAll gs).forms ([] ++ (base.giveAll gs).frames) =
        .ok ⟨[] ++ (base.giveAll gs).frames, (base.giveAll gs).forms⟩ := by
      rcases receptive_giveAll hbase gs with h | ⟨b, start, elems, fs, h⟩
      · rw [h]
        rfl
      · rw [h]
        rfl
    rw [hskip]
    exact .ok (.intro .nil hforms)
  | cons hfr hrest =>
    cases hfr with
    | collecting b hp helems => exact .ok (.intro (.cons (.collecting b hp helems) hrest) hforms)
    | awaiting _ hp => exact follows_fail hrest hp rfl
    | decorating _ _ hp => exact follows_fail hrest hp rfl

theorem follows_deliver {f g : Form} (h : f.bare = g.bare) :
    Follows d base (Above d base) (deliver forms frames f)
      (deliver (base.giveAll gs).forms (frames' ++ (base.giveAll gs).frames) g) := by
  induction hframes generalizing f g with
  | nil =>
    have hgive : gs.map Form.bare ++ [g.bare] = ((f :: forms).reverse).map Form.bare := by
      rw [hforms, List.reverse_cons, List.map_append, ← h]
      rfl
    rw [List.nil_append, deliver_of_receptive (receptive_giveAll hbase gs), ← giveAll_concat]
    exact .ok (.intro .nil (by simpa using hgive))
  | cons hfr hrest ih =>
    cases hfr with
    | collecting b hp helems =>
      refine .ok (.intro (.cons (.collecting b hp ?_) hrest) hforms)
      rw [List.map_cons, List.map_cons, h, helems]
    | awaiting mark hp =>
      cases mark with
      | quote => exact ih (Form.bare_call _ h)
      | deref => exact ih (Form.bare_call _ h)
      | var =>
        cases Form.alike_of_bare h with
        | symbol => exact ih (Form.bare_call _ h)
        | _ => exact follows_fail hrest hp (congrArg ReadFault.varNeedsSymbol h.symm)
      | discard => exact follows_skip hrest hbase hforms
      | metadata =>
        cases Form.alike_of_bare h with
        | keyword | symbol | string | map =>
      exact .ok (.intro (.cons (.decorating _ _ hp) hrest) hforms)
        | _ => exact follows_fail hrest hp (congrArg ReadFault.invalidMetadata h.symm)
    | decorating m m' hp =>
      cases Form.alike_of_bare h with
      | symbol | list | vector | map | set => exact ih h
      | _ => exact follows_fail hrest hp (congrArg ReadFault.invalidMetadataTarget h.symm)

end Above

theorem Above.finished {base t t' : Stack} (hbase : base.frames = []) (h : Above d base t t') :
    ∃ gs, t'.forms.reverse = base.forms.reverse ++ gs ∧
      gs.map Form.bare = t.forms.reverse.map Form.bare := by
  obtain ⟨_, baseForms⟩ := base
  cases hbase
  cases h with
  | @intro _ _ _ gs _ hforms => exact ⟨gs, by simp [giveAll_top], hforms⟩

theorem follows_close {base t t' : Stack} (hbase : base.Receptive) (h : Above d base t t')
    (hopen : t.frames ≠ []) (closing : Option Char) :
    Follows d base (Above d base) (t.close closing) (t'.close closing) := by
  obtain ⟨hframes, hforms⟩ := h
  cases hframes with
  | nil => exact absurd rfl hopen
  | cons hfr hrest =>
    cases hfr with
    | @collecting b p q elems elems' hp helems =>
      have helems : elems.reverse.map Form.bare = elems'.reverse.map Form.bare := by
        rw [List.map_reverse, List.map_reverse, helems]
      simp only [close, List.cons_append]
      rcases b.gather_congr p q helems with ⟨fault, hf, hg⟩ | ⟨f, g, hf, hg, hbare⟩
      · rw [hf, hg]
        exact follows_fail hrest hp rfl
      · rw [hf, hg]
        by_cases hc : closing = some b.closing
        · simp only [if_pos hc]
          exact follows_deliver hrest hbase hforms hbare
        · simp only [if_neg hc]
          exact follows_fail hrest hp rfl
    | awaiting _ hp => exact follows_fail hrest hp rfl
    | decorating _ _ hp => exact follows_fail hrest hp rfl

theorem follows_close_none {base t t' : Stack} (hbase : base.frames = []) (h : Above d base t t') :
    Follows d base (Above d base) (t.close none) (t'.close none) := by
  by_cases hopen : t.frames = []
  · cases h with
    | @intro _ _ _ gs hframes hforms =>
      cases hopen
      cases hframes
      obtain ⟨_, baseForms⟩ := base
      cases hbase
      have hclosed : close ⟨[] ++ (giveAll ⟨[], baseForms⟩ gs).frames,
          (giveAll ⟨[], baseForms⟩ gs).forms⟩ none =
            .ok ⟨[] ++ (giveAll ⟨[], baseForms⟩ gs).frames, (giveAll ⟨[], baseForms⟩ gs).forms⟩ := by
        simp [close, giveAll_top]
      rw [hclosed]
      exact .ok (.intro .nil hforms)
  · exact follows_close (.inl hbase) h hopen none

end Stack

namespace Reader

inductive Mode.Moved (d : Nat) : Mode → Mode → Prop
  | between : Moved d .between .between
  | comment : Moved d .comment .comment
  | token {p q : Position} (seen : List Char) : p.Moved d q → Moved d (.token p seen) (.token q seen)
  | string {p q : Position} (seen : List Char) (escaped : Bool) : p.Moved d q →
      Moved d (.string p seen escaped) (.string q seen escaped)
  | regex {p q : Position} (seen : List Char) (escaped : Bool) : p.Moved d q →
      Moved d (.regex p seen escaped) (.regex q seen escaped)
  | dispatch {p q : Position} : p.Moved d q → Moved d (.dispatch p) (.dispatch q)
  | char {p q : Position} : p.Moved d q → Moved d (.char p) (.char q)
  | charName {p q : Position} (seen : List Char) : p.Moved d q →
      Moved d (.charName p seen) (.charName q seen)

namespace State

/-- The state of the same run `d` bytes further on and above `base`. -/
structure Above (d : Nat) (base : Stack) (s s' : State) : Prop where
  next : s.next.Moved d s'.next
  mode : s.mode.Moved d s'.mode
  stack : Stack.Above d base s.stack s'.stack

inductive Begins (c : Char) : Prop
  | enters (mode : Position → Mode) : (∀ d p q, p.Moved d q → (mode p).Moved d (mode q)) →
      (∀ s, begin s c = .ok { s with mode := mode s.next }) → Begins c
  | opens (frame : Position → Frame) : (∀ d p q, p.Moved d q → (frame p).Moved d (frame q)) →
      (∀ s, begin s c = .ok (s.openFrame (frame s.next))) → Begins c
  | closes : (∀ s, begin s c = s.close c) → Begins c
  | fails : (∀ s, begin s c = s.fail s.next (.unexpected c)) → Begins c

theorem begins_opening {c : Char} (b : Bracket)
    (h : ∀ s, begin s c = .ok (s.openFrame (.collecting b s.next []))) : Begins c :=
  .opens (.collecting b · []) (fun _ _ _ hp => .collecting b hp rfl) h

theorem begins_mark {c : Char} (mark : Mark)
    (h : ∀ s, begin s c = .ok (s.openFrame (.awaiting mark s.next))) : Begins c :=
  .opens (.awaiting mark) (fun _ _ _ hp => .awaiting mark hp) h

theorem begins (c : Char) : Begins c := by
  by_cases hblank : Text.isBlank c
  · exact .enters (fun _ => .between) (fun _ _ _ _ => .between) fun s => if_pos hblank
  · generalize hr : begin .initial c = r
    unfold begin at hr
    rw [if_neg hblank] at hr
    split at hr
    · exact .enters (fun _ => .comment) (fun _ _ _ _ => .comment) fun s => rfl
    · exact begins_opening .round fun s => rfl
    · exact begins_opening .square fun s => rfl
    · exact begins_opening .curly fun s => rfl
    · exact .closes fun s => rfl
    · exact .closes fun s => rfl
    · exact .closes fun s => rfl
    · exact .enters .dispatch (fun _ _ _ => .dispatch) fun s => rfl
    · exact begins_mark .deref fun s => rfl
    · exact begins_mark .quote fun s => rfl
    · exact begins_mark .metadata fun s => rfl
    · exact .enters .char (fun _ _ _ => .char) fun s => rfl
    · exact .enters (.string · [] false) (fun _ _ _ => .string [] false) fun s => rfl
    · by_cases hstart : Text.startsToken c
      · refine .enters (.token · [c]) (fun _ _ _ => .token [c]) fun s => ?_
        unfold begin
        rw [if_neg hblank]
        split <;> first | contradiction | exact if_pos hstart
      · refine .fails fun s => ?_
        unfold begin
        rw [if_neg hblank]
        split <;> first | contradiction | exact if_neg hstart

section Above

variable {base : Stack} {s s' : State}

theorem Above.withMode (h : Above d base s s') {mode mode' : Mode} (hmode : mode.Moved d mode') :
    Above d base { s with mode } { s' with mode := mode' } :=
  ⟨h.next, hmode, h.stack⟩

theorem Above.openFrame (h : Above d base s s') {frame frame' : Frame}
    (hframe : frame.Moved d frame') :
    Above d base (s.openFrame frame) (s'.openFrame frame') := by
  obtain ⟨next, mode, stack⟩ := s
  obtain ⟨next', mode', stack'⟩ := s'
  obtain ⟨hnext, -, hstack⟩ := h
  cases hstack with
  | intro hframes hforms => exact ⟨hnext, .between, .intro (.cons hframe hframes) hforms⟩

theorem follows_fail (h : Above d base s s') {R : α → β → Prop} {p q : Position}
    (hp : p.Moved d q) (fault : ReadFault) :
    Follows d base R (s.fail p fault) (s'.fail q fault) := by
  obtain ⟨next, mode, stack⟩ := s
  obtain ⟨next', mode', stack'⟩ := s'
  obtain ⟨-, -, hstack⟩ := h
  cases hstack with
  | intro hframes hforms => exact Stack.follows_fail hframes hp rfl

variable (hbase : base.Receptive)
include hbase

theorem follows_deliver (h : Above d base s s') (f : Form) :
    Follows d base (Above d base) (s.deliver f) (s'.deliver f) := by
  obtain ⟨next, mode, stack⟩ := s
  obtain ⟨next', mode', stack'⟩ := s'
  obtain ⟨hnext, -, hstack⟩ := h
  cases hstack with
  | intro hframes hforms =>
    refine follows_map (Stack.follows_deliver hframes hbase hforms rfl) fun t t' ht => ?_
    exact ⟨hnext, .between, ht⟩

theorem follows_complete (h : Above d base s s') {p q : Position} (hp : p.Moved d q)
    (r : Except ReadFault Form) :
    Follows d base (Above d base) (s.complete p r) (s'.complete q r) := by
  cases r with
  | ok f => exact follows_deliver hbase h f
  | error fault => exact follows_fail h hp fault

theorem follows_close (h : Above d base s s') (c : Char) :
    Follows d base (Above d base) (s.close c) (s'.close c) := by
  obtain ⟨next, mode, stack⟩ := s
  obtain ⟨next', mode', stack'⟩ := s'
  obtain ⟨hnext, hmode, hstack⟩ := h
  by_cases hopen : stack.frames = []
  · -- at the bottom of the stack the bracket closes nothing, but it may close a frame of `base`
    by_cases hbottom : base.frames = []
    · have hclosed : stack'.frames = [] := by
        cases hstack with
        | @intro _ _ _ gs hframes hforms =>
          cases hopen
          cases hframes
          obtain ⟨_, baseForms⟩ := base
          cases hbottom
          simp [Stack.giveAll_top]
      simp only [close, hopen, hclosed, List.isEmpty_nil, if_true]
      exact follows_fail ⟨hnext, hmode, hstack⟩ hnext _
    · simp only [close, hopen, List.isEmpty_nil, if_true]
      exact .below hbottom
  · have hopen' : stack'.frames ≠ [] := by
      cases hstack with
      | intro hframes hforms =>
        cases hframes with
        | nil => exact absurd rfl hopen
        | cons => simp
    have hclose := Stack.follows_close hbase hstack hopen (some c)
    simp only [close, List.isEmpty_iff, hopen, hopen', if_false]
    exact follows_map hclose fun t t' ht => ⟨hnext, .between, ht⟩

theorem follows_begin (h : Above d base s s') (c : Char) :
    Follows d base (Above d base) (s.begin c) (s'.begin c) := by
  cases begins c with
  | enters mode hmode hbegin =>
    rw [hbegin, hbegin]
    exact .ok (h.withMode (hmode _ _ _ h.next))
  | opens frame hframe hbegin =>
    rw [hbegin, hbegin]
    exact .ok (h.openFrame (hframe _ _ _ h.next))
  | closes hbegin =>
    rw [hbegin, hbegin]
    exact follows_close hbase h c
  | fails hbegin =>
    rw [hbegin, hbegin]
    exact follows_fail h h.next _

omit hbase in
theorem follows_dispatch (h : Above d base s s') {p q : Position} (hp : p.Moved d q) (c : Char) :
    Follows d base (Above d base) (s.dispatch p c) (s'.dispatch q c) := by
  unfold dispatch
  split
  · exact .ok (h.openFrame (.collecting .hashCurly hp rfl))
  · exact .ok (h.withMode (.regex [] false hp))
  · exact .ok (h.openFrame (.awaiting .var hp))
  · exact .ok (h.openFrame (.awaiting .discard hp))
  · exact follows_fail h hp _

theorem follows_take (h : Above d base s s') (c : Char) :
    Follows d base (Above d base) (s.take c) (s'.take c) := by
  obtain ⟨next, mode, stack⟩ := s
  obtain ⟨next', mode', stack'⟩ := s'
  have hmode := h.mode
  cases hmode with
  | between => exact follows_begin hbase h c
  | comment =>
    unfold take
    by_cases hc : c = '\n'
    · simp only [if_pos hc]
      exact .ok (h.withMode .between)
    · simp only [if_neg hc]
      exact .ok h
  | token seen hp =>
    unfold take
    dsimp only
    split
    · exact .ok (h.withMode (.token _ hp))
    · exact follows_bind (follows_complete hbase h hp _) fun t t' ht => follows_begin hbase ht c
  | string seen escaped hp =>
    unfold take
    dsimp only
    split
    · exact .ok (h.withMode (.string _ _ hp))
    · split
      · exact follows_deliver hbase h _
      · exact .ok (h.withMode (.string _ _ hp))
  | regex seen escaped hp =>
    unfold take
    dsimp only
    split
    · exact .ok (h.withMode (.regex _ _ hp))
    · split
      · exact follows_deliver hbase h _
      · exact .ok (h.withMode (.regex _ _ hp))
  | dispatch hp => exact follows_dispatch h hp c
  | char hp =>
    unfold take
    dsimp only
    split
    · exact .ok (h.withMode (.charName _ hp))
    · exact follows_complete hbase h hp _
  | charName seen hp =>
    unfold take
    dsimp only
    split
    · exact .ok (h.withMode (.charName _ hp))
    · exact follows_bind (follows_complete hbase h hp _) fun t t' ht => follows_begin hbase ht c

theorem follows_step (h : Above d base s s') (c : Char) :
    Follows d base (Above d base) (s.step c) (s'.step c) :=
  follows_map (follows_take hbase h c) fun _ _ ht => ⟨h.next.after c, ht.mode, ht.stack⟩

theorem follows_run (h : Above d base s s') (cs : List Char) :
    Follows d base (Above d base) (s.run cs) (s'.run cs) := by
  induction cs generalizing s s' with
  | nil => exact .ok h
  | cons c cs ih => exact follows_bind (follows_step hbase h c) fun t t' ht => ih ht

theorem follows_settle (h : Above d base s s') :
    Follows d base (Above d base) s.settle s'.settle := by
  obtain ⟨next, mode, stack⟩ := s
  obtain ⟨next', mode', stack'⟩ := s'
  have hmode := h.mode
  cases hmode with
  | between => exact .ok h
  | comment => exact .ok h
  | token seen hp => exact follows_complete hbase h hp _
  | charName seen hp => exact follows_complete hbase h hp _
  | string _ _ hp => exact follows_fail h hp _
  | regex _ _ hp => exact follows_fail h hp _
  | dispatch hp => exact follows_fail h hp _
  | char hp => exact follows_fail h hp _

end Above

end State

end Reader

end LispFront
