import LispFront.Proofs.Reader.Spans
import LispFront.Proofs.Text.CharName

/-!
# Reading back printed forms

The text of a form is read as that form, up to metadata, wherever it stands between other texts: the
form is delivered to whatever waits for one. So the texts of all forms that were read give these
forms again.
-/

namespace LispFront

namespace Form

def placeAt (p : Position) : Form → FormMap
  | .list .. => p.metadata
  | _ => []

theorem metadata_bare (f : Form) : f.bare.metadata = [] := by
  cases f <;> rfl

theorem Spelled.opensToken {f : Form} (h : f.Spelled) {c : Char}
    (hc : f.text.toList.head? = some c) : OpensToken c := by
  obtain ⟨cs, hcs⟩ := List.head?_eq_some_iff.mp hc
  have htoken := h.isToken
  rw [hcs] at htoken
  exact htoken.1

theorem Spelled.placeAt {f : Form} (h : f.Spelled) (p : Position) : f.placeAt p = [] := by
  cases f with
  | list es m =>
    have hopens : OpensToken '(' := h.opensToken (by simp [text])
    cases hopens .initial
  | _ => rfl

end Form

namespace Reader.State

def Breaks (c : Char) : Prop := c ∈ [' ', ',', ')', ']', '}']

theorem not_continuesToken_of_breaks {c : Char} (h : Breaks c) : Text.continuesToken c = false := by
  simp only [Breaks, List.mem_cons, List.not_mem_nil, or_false] at h
  rcases h with rfl | rfl | rfl | rfl | rfl <;> rfl

theorem not_isAlphanumeric_of_breaks {c : Char} (h : Breaks c) : Text.isAlphanumeric c = false := by
  simp only [Breaks, List.mem_cons, List.not_mem_nil, or_false] at h
  rcases h with rfl | rfl | rfl | rfl | rfl <;> rfl

theorem breaks_closing (b : Bracket) : Breaks b.closing := by
  cases b <;> simp [Breaks, Bracket.closing]

/-- The characters deliver the form to the stack, whatever comes behind them in a printed text. -/
def Delivers (stack : Stack) (p : Position) (cs : List Char) (f : Form) : Prop :=
  ∀ ys : List Char, (∀ c ∈ ys.head?, Breaks c) → readRest ⟨p, .between, stack⟩ (cs ++ ys) =
    (Stack.deliver stack.forms stack.frames f).bind fun t =>
      readRest ⟨cs.foldl .after p, .between, t⟩ ys

def Leaves (stack : Stack) (p : Position) (cs : List Char) (stack' : Stack) : Prop :=
  ∀ ys : List Char, (∀ c ∈ ys.head?, Breaks c) → readRest ⟨p, .between, stack⟩ (cs ++ ys) =
    readRest ⟨cs.foldl .after p, .between, stack'⟩ ys

section Delivers

variable (stack : Stack) (p : Position)

theorem delivers_token {cs : List Char} {f : Form} (h : IsToken cs) (hf : Token.form cs = .ok f) :
    Delivers stack p cs f := by
  intro ys hys
  rw [readRest_token h p stack fun c hc => not_continuesToken_of_breaks (hys c hc), hf]
  rfl

theorem delivers_char (c : Char) : Delivers stack p (Form.text (.char c)).toList (.char c) := by
  intro ys hys
  have hstop := fun d hd => not_isAlphanumeric_of_breaks (hys d hd)
  have hchar := Text.char_charName c
  have htext : (Form.text (.char c)).toList = '\\' :: (Text.charName c).toList := by
    rw [Form.text, String.toList_append]
    rfl
  rw [htext, List.cons_append, readRest_cons]
  change readRest ⟨p.after '\\', .char p, stack⟩ ((Text.charName c).toList ++ ys) = _
  -- a run of letters and digits is open to more of them, any other character ends the literal
  rcases Text.charName_cases c with ⟨d, ds, hname, hd, hds⟩ | ⟨hname, hc⟩
  · rw [hname] at hchar ⊢
    have htake : take ⟨p.after '\\', .char p, stack⟩ d =
        .ok ⟨p.after '\\', .charName p [d], stack⟩ := if_pos hd
    rw [List.cons_append, readRest_cons, htake]
    refine (readRest_collected (fun _ _ _ => rfl) (fun _ _ => rfl) _ [d] (ds ++ ys)).trans ?_
    rw [takeWhile_append_of_stop hds hstop, dropWhile_append_of_stop hds hstop]
    change (Stack.complete stack p (Token.char (d :: ds))).bind _ = _
    rw [hchar]
    rfl
  · rw [hname] at hchar ⊢
    have htake : take ⟨p.after '\\', .char p, stack⟩ c =
        complete ⟨p.after '\\', .char p, stack⟩ p (Token.char [c]) := if_neg (by simp [hc])
    refine (readRest_complete htake ys).trans ?_
    rw [hchar]
    rfl

theorem delivers_quoted {opening body : List Char} (mode : List Char → Bool → Mode)
    (make : List Char → Form) (hopen : ∀ ys, readRest ⟨p, .between, stack⟩ (opening ++ ys) =
      readRest ⟨opening.foldl .after p, mode [] false, stack⟩ ys)
    (hon : ∀ p seen escaped c, (escaped = true ∨ c ≠ '"') → take ⟨p, mode seen escaped, stack⟩ c =
      .ok ⟨p, mode (c :: seen) (!escaped && c == '\\'), stack⟩)
    (hclose : ∀ p seen, take ⟨p, mode seen false, stack⟩ '"' =
      deliver ⟨p, mode seen false, stack⟩ (make seen.reverse))
    (hbody : Text.scan false body = some false) :
    Delivers stack p (opening ++ (body ++ ['"'])) (make body) := by
  intro ys _
  rw [List.append_assoc, hopen, List.append_assoc, List.singleton_append,
    readRest_quoted hon hclose hbody, List.foldl_append, List.foldl_append]
  rfl

theorem delivers_string (str : String) :
    Delivers stack p (Form.text (.string str)).toList (.string str) := by
  have htext : (Form.text (.string str)).toList = ['"'] ++ (Text.escape str.toList ++ ['"']) := by
    simp [Form.text, Text.quoted]
  have hopen (ys : List Char) : readRest ⟨p, .between, stack⟩ (['"'] ++ ys) =
      readRest ⟨p.after '"', .string p [] false, stack⟩ ys := readRest_cons _ '"' ys
  have hquoted := delivers_quoted stack p (.string p)
    (fun cs => .string (.ofList (Text.unescape cs))) hopen (fun _ _ _ _ => take_string)
    (fun _ _ => rfl) (Text.scan_escape str.toList)
  rw [htext]
  rwa [Text.unescape_escape, String.ofList_toList] at hquoted

theorem delivers_regex {source : String} (h : Text.scan false source.toList = some false) :
    Delivers stack p (Form.text (.regex source)).toList (.regex source) := by
  have htext : (Form.text (.regex source)).toList = ['#', '"'] ++ (source.toList ++ ['"']) := by
    simp [Form.text]
  have hopen (ys : List Char) : readRest ⟨p, .between, stack⟩ (['#', '"'] ++ ys) =
      readRest ⟨(p.after '#').after '"', .regex p [] false, stack⟩ ys :=
    (readRest_cons _ '#' ('"' :: ys)).trans (readRest_cons _ '"' ys)
  have hquoted := delivers_quoted stack p (.regex p) (fun cs => .regex (.ofList cs)) hopen
    (fun _ _ _ _ => take_regex) (fun _ _ => rfl) h
  rw [htext]
  rwa [String.ofList_toList] at hquoted

end Delivers

section Leaves

variable {stack stack' stack'' : Stack} {p : Position} {xs ys : List Char} {c : Char}

theorem leaves_of_delivers {f : Form} (hs : stack.Receptive) (h : Delivers stack p xs f) :
    Leaves stack p xs (stack.give f) := by
  intro zs hzs
  rw [h zs hzs, Stack.deliver_of_receptive hs]
  rfl

theorem leaves_nil (stack : Stack) (p : Position) : Leaves stack p [] stack :=
  fun _ _ => rfl

theorem leaves_blank (hc : Text.isBlank c) (h : Leaves stack (p.after c) xs stack') :
    Leaves stack p (c :: xs) stack' := by
  intro zs hzs
  have htake : take ⟨p, .between, stack⟩ c = .ok ⟨p, .between, stack⟩ := if_pos hc
  rw [List.cons_append, readRest_cons, htake]
  exact h zs hzs

theorem leaves_append (hc : Breaks c) (hx : Leaves stack p xs stack')
    (hy : Leaves stack' (xs.foldl .after p) (c :: ys) stack'') :
    Leaves stack p (xs ++ c :: ys) stack'' := by
  intro zs hzs
  rw [List.append_assoc, hx _ (by simpa using hc), hy zs hzs, List.foldl_append]

end Leaves

theorem delivers_bracket {b : Bracket} {stack : Stack} {p : Position} {opening body : List Char}
    {gs : List Form} {g : Form}
    (hopen : run ⟨p, .between, stack⟩ opening =
      .ok ⟨opening.foldl .after p, .between, stack.push (.collecting b p [])⟩)
    (hbody : Leaves (stack.push (.collecting b p [])) (opening.foldl .after p) body
      ((stack.push (.collecting b p [])).giveAll gs))
    (hg : b.gather p gs = .ok g) : Delivers stack p (opening ++ body ++ [b.closing]) g := by
  intro ys _
  rw [List.append_assoc, List.append_assoc, readRest_append, hopen]
  refine (hbody ([b.closing] ++ ys) (by simpa using breaks_closing b)).trans ?_
  rw [Stack.push, Stack.giveAll_collecting, List.singleton_append,
    readRest_close (List.cons_ne_nil _ _) (fun s => begin_closing s b)]
  simp [Stack.close, hg]

/-- Whatever the position and the stack, the text of the form delivers the form. -/
def ReadsBack (f : Form) : Prop := ∀ p stack,
  ∃ g : Form, g.bare = f.bare ∧ g.metadata = f.placeAt p ∧ Delivers stack p f.text.toList g

theorem readsBack_elems {es : List Form} (h : ∀ e ∈ es, ReadsBack e) (p : Position)
    {stack : Stack} (hs : stack.Receptive) :
    ∃ gs : List Form, gs.map Form.bare = es.map Form.bare ∧
      Leaves stack p (Form.textElems es).toList (stack.giveAll gs) := by
  induction es generalizing p stack with
  | nil => exact ⟨[], rfl, leaves_nil stack p⟩
  | cons e es ih =>
    obtain ⟨he, hes⟩ := List.forall_mem_cons.mp h
    obtain ⟨g, hg, -, hdelivers⟩ := he p stack
    have hleaves := leaves_of_delivers hs hdelivers
    cases es with
    | nil => exact ⟨[g], by simp [hg], hleaves⟩
    | cons e' es =>
      obtain ⟨gs, hgs, hrest⟩ := ih hes _ (Stack.receptive_give hs g)
      refine ⟨g :: gs, by rw [List.map_cons, List.map_cons, hg, hgs], ?_⟩
      have htext : (Form.textElems (e :: e' :: es)).toList =
          e.text.toList ++ ' ' :: (Form.textElems (e' :: es)).toList := by
        rw [Form.textElems]
        · simp
        · simp
      rw [htext]
      exact leaves_append (by simp [Breaks]) hleaves (leaves_blank rfl hrest)

def flat (es : List (Form × Form)) : List Form := es.flatMap fun e => [e.1, e.2]

theorem pairs_flat (es : List (Form × Form)) : pairs (flat es) = some es := by
  induction es with
  | nil => rfl
  | cons e es ih =>
    change (pairs (flat es)).map (e :: ·) = some (e :: es)
    rw [ih]
    rfl

theorem readsBack_entries {es : List (Form × Form)}
    (hk : ∀ e ∈ es, ReadsBack e.1) (hv : ∀ e ∈ es, ReadsBack e.2) (p : Position) {stack : Stack}
    (hs : stack.Receptive) :
    ∃ gs : List (Form × Form), Form.bareEntries gs = Form.bareEntries es ∧
      Leaves stack p (Form.textEntries es).toList (stack.giveAll (flat gs)) := by
  induction es generalizing p stack with
  | nil => exact ⟨[], rfl, leaves_nil stack p⟩
  | cons e es ih =>
    obtain ⟨k, v⟩ := e
    obtain ⟨hk, hks⟩ := List.forall_mem_cons.mp hk
    obtain ⟨hv, hvs⟩ := List.forall_mem_cons.mp hv
    obtain ⟨k', hk', -, hkey⟩ := hk p stack
    have hsk := Stack.receptive_give hs k'
    obtain ⟨v', hv', -, hval⟩ := hv ((k.text.toList.foldl .after p).after ' ') (stack.give k')
    have hsv := Stack.receptive_give hsk v'
    have hentry : Leaves stack p (k.text.toList ++ ' ' :: v.text.toList)
        ((stack.give k').give v') := by
      have hblank := leaves_blank rfl (leaves_of_delivers hsk hval)
      exact leaves_append (by simp [Breaks]) (leaves_of_delivers hs hkey) hblank
    cases es with
    | nil =>
      refine ⟨[(k', v')], by simp only [Form.bareEntries, hk', hv'], ?_⟩
      have htext : (Form.textEntries [(k, v)]).toList = k.text.toList ++ ' ' :: v.text.toList := by
        simp [Form.textEntries]
      rw [htext]
      exact hentry
    | cons e es =>
      obtain ⟨gs, hgs, hrest⟩ := ih hks hvs _ hsv
      refine ⟨(k', v') :: gs, by rw [Form.bareEntries, Form.bareEntries, hk', hv', hgs], ?_⟩
      have htext : (Form.textEntries ((k, v) :: e :: es)).toList =
          (k.text.toList ++ ' ' :: v.text.toList) ++
            ',' :: ' ' :: (Form.textEntries (e :: es)).toList := by
        simp [Form.textEntries]
      rw [htext]
      exact leaves_append (by simp [Breaks]) hentry (leaves_blank rfl (leaves_blank rfl hrest))

theorem readsBack_bracket (b : Bracket) (opening : List Char) {es : List Form} {f : Form}
    (htext : f.text.toList = opening ++ (Form.textElems es).toList ++ [b.closing])
    (hopen : ∀ p stack, run ⟨p, .between, stack⟩ opening =
      .ok ⟨opening.foldl .after p, .between, stack.push (.collecting b p [])⟩)
    (hgather : ∀ p gs, gs.map Form.bare = es.map Form.bare →
      ∃ g, b.gather p gs = .ok g ∧ g.bare = f.bare ∧ g.metadata = f.placeAt p)
    (h : ∀ e ∈ es, ReadsBack e) : ReadsBack f := by
  intro p stack
  obtain ⟨gs, hgs, hbody⟩ := readsBack_elems h (opening.foldl .after p)
    (Stack.receptive_push stack b p [])
  obtain ⟨g, hg, hbare, hmetadata⟩ := hgather p gs hgs
  refine ⟨g, hbare, hmetadata, ?_⟩
  rw [htext]
  exact delivers_bracket (hopen p stack) hbody hg

theorem readsBack_list {es : List Form} (h : ∀ e ∈ es, ReadsBack e) (m : FormMap) :
    ReadsBack (.list es m) := by
  apply readsBack_bracket .round ['('] _ (fun p stack => rfl) _ h
  · simp [Form.text, Bracket.closing]
  · intro p gs hgs
    refine ⟨_, rfl, ?_, rfl⟩
    rw [Form.bare, Form.bare, Form.bareElems_eq, Form.bareElems_eq, hgs]

theorem readsBack_vector {es : List Form} (h : ∀ e ∈ es, ReadsBack e) (m : FormMap) :
    ReadsBack (.vector es m) := by
  apply readsBack_bracket .square ['['] _ (fun p stack => rfl) _ h
  · simp [Form.text, Bracket.closing]
  · intro p gs hgs
    refine ⟨_, rfl, ?_, rfl⟩
    rw [Form.bare, Form.bare, Form.bareElems_eq, Form.bareElems_eq, hgs]

theorem readsBack_set {es : FormSet} (hes : Sorted.Increasing Form.cmp es)
    (h : ∀ e ∈ es, ReadsBack e) (m : FormMap) : ReadsBack (.set es m) := by
  apply readsBack_bracket .hashCurly ['#', '{'] _ (fun p stack => rfl) _ h
  · simp [Form.text, Bracket.closing]
  · intro p gs hgs
    have hsorted : Sorted.Increasing Form.cmp gs := by
      rw [← Form.increasing_bare, hgs, Form.increasing_bare]
      exact hes
    have hgather : Bracket.hashCurly.gather p gs = .ok (.set gs []) := by
      rw [Bracket.gather, FormSet.ofList, Sorted.ofList_of_increasing hsorted]
    refine ⟨_, hgather, ?_, rfl⟩
    rw [Form.bare, Form.bare, Form.bareElems_eq, Form.bareElems_eq, hgs]

theorem readsBack_map {es : FormMap} (hes : Sorted.Increasing (fun a b => a.1.cmp b.1) es)
    (hk : ∀ e ∈ es, ReadsBack e.1) (hv : ∀ e ∈ es, ReadsBack e.2) (m : FormMap) :
    ReadsBack (.map es m) := by
  intro p stack
  obtain ⟨gs, hgs, hbody⟩ := readsBack_entries hk hv (p.after '{')
    (Stack.receptive_push stack .curly p [])
  -- what was read is in order again, so that collecting it moves nothing
  have hsorted : Sorted.Increasing (fun a b => a.1.cmp b.1) gs := by
    rw [← Form.increasing_bareEntries, hgs, Form.increasing_bareEntries]
    exact hes
  have hgather : Bracket.curly.gather p (flat gs) = .ok (.map gs []) := by
    have hof : FormMap.ofList gs = gs := Sorted.ofList_of_increasing hsorted
    rw [Bracket.gather, pairs_flat]
    dsimp only
    rw [hof]
  have htext : (Form.text (.map es m)).toList = ['{'] ++ (Form.textEntries es).toList ++ ['}'] := by
    simp [Form.text]
  have hopen : run ⟨p, .between, stack⟩ ['{'] =
      .ok ⟨p.after '{', .between, stack.push (.collecting .curly p [])⟩ := rfl
  refine ⟨.map gs [], ?_, rfl, ?_⟩
  · rw [Form.bare, Form.bare, hgs]
  · rw [htext]
    exact delivers_bracket hopen hbody hgather

theorem readsBack_of_readable {f : Form} (h : Readable f) : ReadsBack f := by
  induction h with
  | spelled h =>
    intro p stack
    refine ⟨_, Form.bare_bare _, ?_, delivers_token stack p h.isToken h.denotes⟩
    rw [Form.metadata_bare, h.placeAt]
  | string str => exact fun p stack => ⟨_, rfl, rfl, delivers_string stack p str⟩
  | char c => exact fun p stack => ⟨_, rfl, rfl, delivers_char stack p c⟩
  | regex h => exact fun p stack => ⟨_, rfl, rfl, delivers_regex stack p h⟩
  | list _ ih => exact readsBack_list ih _
  | vector _ ih => exact readsBack_vector ih _
  | map hes _ _ hk hv => exact readsBack_map hes hk hv _
  | set hes _ ih => exact readsBack_set hes ih _

end Reader.State

open Reader State in
/-- Forms whose texts the reader can give are read from them again, one behind the other. -/
theorem read_textElems {fs : List Form} (h : ∀ f ∈ fs, Readable f) :
    ∃ gs, read (Form.textElems fs) = .ok gs ∧ gs.map Form.bare = fs.map Form.bare := by
  have hs : Stack.Receptive ⟨[], []⟩ := .inl rfl
  obtain ⟨gs, hgs, hleaves⟩ :=
    readsBack_elems (fun f hf => readsBack_of_readable (h f hf)) .start hs
  refine ⟨gs, ?_, hgs⟩
  have hread := hleaves [] (by simp)
  rw [List.append_nil, Stack.giveAll_top, List.append_nil] at hread
  refine Eq.trans hread ?_
  exact congrArg Except.ok (List.reverse_reverse gs)

theorem textElems_eq (fs : List Form) :
    Form.textElems fs = " ".intercalate (fs.map Form.text) := by
  induction fs with
  | nil => rfl
  | cons f fs ih =>
    cases fs with
    | nil => exact String.intercalate_singleton.symm
    | cons g fs =>
      rw [Form.textElems, ih, List.map_cons, List.map_cons, List.map_cons,
        String.intercalate_cons_cons]
      simp

theorem beq_of_bare {fs gs : List Form} (h : fs.map Form.bare = gs.map Form.bare) :
    (fs == gs) = true := by
  induction fs generalizing gs with
  | nil =>
    cases gs with
    | nil => rfl
    | cons g gs => cases h
  | cons f fs ih =>
    cases gs with
    | nil => cases h
    | cons g gs =>
      obtain ⟨hf, hfs⟩ := List.cons_eq_cons.mp h
      rw [List.cons_beq_cons, Bool.and_eq_true]
      exact ⟨Form.beq_iff_bare.mpr hf, ih hfs⟩

theorem read_texts {source : String} {fs : List Form} (h : read source = .ok fs) :
    ∃ gs, read (" ".intercalate (fs.map Form.text)) = .ok gs ∧ (gs == fs) = true ∧
      gs.map Form.text = fs.map Form.text := by
  obtain ⟨gs, hread, hbare⟩ := read_textElems (readable_of_read h)
  rw [textElems_eq] at hread
  refine ⟨gs, hread, beq_of_bare hbare, ?_⟩
  have htexts := congrArg (List.map Form.text) hbare
  simpa only [List.map_map, Function.comp_def, Form.text_bare] using htexts

theorem read_texts_of_collections :
    ∃ fs gs, read "#\x7b2 1\x7d \x7b:b \\( :a @x\x7d" = .ok fs ∧
      read (" ".intercalate (fs.map Form.text)) = .ok gs ∧ (gs == fs) = true ∧
      gs.map Form.text = fs.map Form.text := by
  obtain ⟨fs, h⟩ : ∃ fs, read "#\x7b2 1\x7d \x7b:b \\( :a @x\x7d" = .ok fs := ⟨_, rfl⟩
  obtain ⟨gs, hgs⟩ := read_texts h
  exact ⟨fs, gs, h, hgs⟩

end LispFront
