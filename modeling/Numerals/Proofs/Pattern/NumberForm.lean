import Mathlib.Data.List.DropRight
import Numerals.Pattern.Layout

/-!
# Forms of number bodies

The grammar of number bodies, on rows of markers (`NumberForm.Valid`), and the layout that a body
of this grammar asks for (`NumberForm.layout`). `Layout.ofBody_eq_ok_iff` says that reading a body
accepts just this grammar and yields this layout.
-/

namespace Numerals

theorem bind_eq_ok_iff {ε α β : Type} {x : Except ε α} {f : α → Except ε β} {b : β} :
    (x >>= f) = .ok b ↔ ∃ a, x = .ok a ∧ f a = .ok b := by
  cases x with
  | error e => simp [Bind.bind, Except.bind]
  | ok a => simp [Bind.bind, Except.bind]

theorem bind_eq_error_iff {ε α β : Type} {x : Except ε α} {f : α → Except ε β} {e : ε} :
    (x >>= f) = .error e ↔ x = .error e ∨ ∃ a, x = .ok a ∧ f a = .error e := by
  cases x with
  | error e => simp [Bind.bind, Except.bind]
  | ok a => simp [Bind.bind, Except.bind]

/-- The markers of a number body: those before the decimal separator, and those after it where
there is one. -/
structure NumberForm where
  integer : List Marker := []
  fraction : Option (List Marker) := none

namespace NumberForm

def markers (n : NumberForm) : List Marker :=
  n.integer ++ n.fraction.elim [] (.point :: ·)

/-- What follows the last grouping separator of the integer part. -/
def lastGroup (n : NumberForm) : List Marker :=
  n.integer.rtakeWhile (· ≠ .group)

structure Valid (n : NumberForm) : Prop where
  noPoint : .point ∉ n.integer
  /-- No optional digit follows a required one before the decimal separator. -/
  optionalFirst : ∀ a b, n.integer = a ++ .optional :: b → .required ∉ a
  /-- A digit follows the last grouping separator. -/
  grouped : .group ∈ n.integer → n.lastGroup ≠ []
  /-- After the decimal separator required digits come first, and there is nothing but digits. -/
  requiredFirst : ∀ f ∈ n.fraction, ∃ required optional,
    f = List.replicate required .required ++ List.replicate optional .optional

theorem valid_empty : ({} : NumberForm).Valid :=
  ⟨by simp, by simp, by simp, by simp⟩

/-- What a body of this form asks for; without markers one integer digit. -/
def layout (n : NumberForm) : Layout where
  groupingSize := if .group ∈ n.integer then n.lastGroup.length else 0
  limits :=
    { minInteger := if n.markers = [] then 1 else n.integer.count .required
      maxInteger := unboundedDigits
      minFraction := (n.fraction.getD []).count .required
      maxFraction := (n.fraction.getD []).length }
  separatorAlwaysShown := n.fraction = some []

end NumberForm

/-! ## Integer parts -/

namespace IntegerPart

/-- The integer part after one more of its markers. -/
def read (i : IntegerPart) (l : Lexeme) : IntegerPart :=
  match l.token with
  | .marker .required => { i with required := i.required + 1, grouped := i.grouped + 1 }
  | .marker .optional => { i with grouped := i.grouped + 1 }
  | .marker .group => { i with lastGroup := some l.position, grouped := 0 }
  | _ => i

/-- Each of the tokens after `i` is a marker of an integer part that may stand there. -/
def Reads (i : IntegerPart) (ls : List Lexeme) : Prop :=
  ∀ a l b, ls = a ++ l :: b → ∃ m, l.token = .marker m ∧ m ≠ .point ∧
    (m = .optional → (a.foldl read i).required = 0)

theorem reads_nil (i : IntegerPart) : i.Reads [] := by
  intro a l b h
  simp at h

theorem reads_cons_iff {i : IntegerPart} {l : Lexeme} {ls : List Lexeme} :
    i.Reads (l :: ls) ↔ (∃ m, l.token = .marker m ∧ m ≠ .point ∧
      (m = .optional → i.required = 0)) ∧ (i.read l).Reads ls := by
  constructor
  · intro h
    exact ⟨h [] l ls rfl, fun a k b hls => h (l :: a) k b (by rw [hls]; rfl)⟩
  · rintro ⟨hl, hls⟩ a k b hsplit
    cases a with
    | nil =>
      cases hsplit
      exact hl
    | cons l' a =>
      obtain ⟨rfl, htail⟩ := List.cons.inj hsplit
      exact hls a k b htail

theorem exists_markers {ls : List Lexeme}
    (h : ∀ l ∈ ls, ∃ m, l.token = .marker m ∧ m ≠ .point) :
    ∃ ms : List Marker, ls.map (·.token) = ms.map .marker ∧ .point ∉ ms := by
  induction ls with
  | nil => exact ⟨[], rfl, by simp⟩
  | cons l ls ih =>
    obtain ⟨m, hm, hpoint⟩ := h l List.mem_cons_self
    obtain ⟨ms, hms, hnot⟩ := ih fun k hk => h k (List.mem_cons_of_mem _ hk)
    exact ⟨m :: ms, by simp [hm, hms], by simp [hnot, Ne.symm hpoint]⟩

/-- What has been read of an integer part from its start. -/
theorem read_spec {ls : List Lexeme} {ms : List Marker} (h : ls.map (·.token) = ms.map .marker)
    (hpoint : .point ∉ ms) :
    (ls.foldl read {}).required = ms.count .required ∧
      (ls.foldl read {}).grouped = (ms.rtakeWhile (· ≠ .group)).length ∧
      ((ls.foldl read {}).lastGroup.isSome ↔ .group ∈ ms) := by
  induction ms using List.reverseRecOn generalizing ls with
  | nil =>
    cases List.map_eq_nil_iff.1 h
    simp
  | append_singleton ms m ih =>
    obtain ⟨init, last, rfl, hinit, hlast⟩ :
        ∃ init last, ls = init ++ [last] ∧ init.map (·.token) = ms.map .marker ∧
          last.token = .marker m := by
      rw [List.map_append] at h
      obtain ⟨init, last, rfl, hinit, hlast⟩ := List.map_eq_append_iff.1 h
      obtain ⟨l, rfl, hl⟩ := List.map_eq_singleton_iff.1 hlast
      exact ⟨init, l, rfl, hinit, hl⟩
    obtain ⟨hr, hg, hs⟩ := ih hinit fun hm => hpoint (List.mem_append_left _ hm)
    have hm : m ≠ .point := fun hm => hpoint (by simp [hm])
    rw [List.foldl_append, List.foldl_cons, List.foldl_nil, List.rtakeWhile_concat]
    generalize init.foldl read {} = i at hr hg hs
    cases m <;> simp [read, hlast, hr, hg, hs] at hm ⊢

/-- The integer parts are the rows of markers without a decimal separator in which no optional digit
follows a required one. -/
theorem reads_iff {ls : List Lexeme} :
    ({} : IntegerPart).Reads ls ↔ ∃ ms, ls.map (·.token) = ms.map .marker ∧ .point ∉ ms ∧
      ∀ a b, ms = a ++ .optional :: b → .required ∉ a := by
  constructor
  · intro h
    have hmarkers : ∀ l ∈ ls, ∃ m, l.token = .marker m ∧ m ≠ .point := by
      intro l hl
      obtain ⟨a, b, rfl⟩ := List.append_of_mem hl
      obtain ⟨m, hm, hpoint, -⟩ := h a l b rfl
      exact ⟨m, hm, hpoint⟩
    obtain ⟨ms, hms, hpoint⟩ := exists_markers hmarkers
    refine ⟨ms, hms, hpoint, ?_⟩
    rintro a b rfl
    rw [List.map_append, List.map_cons] at hms
    obtain ⟨la, lrest, rfl, hla, hrest⟩ := List.map_eq_append_iff.1 hms
    obtain ⟨l, lb, rfl, hl, -⟩ := List.map_eq_cons_iff.1 hrest
    obtain ⟨m, hm, -, hzero⟩ := h la l lb rfl
    cases hl.symm.trans hm
    have hr := (read_spec hla fun hp => hpoint (List.mem_append_left _ hp)).1
    exact List.count_eq_zero.1 (hr ▸ hzero rfl)
  · rintro ⟨ms, hms, hpoint, horder⟩ la l lb rfl
    rw [List.map_append, List.map_cons] at hms
    obtain ⟨a, rest, rfl, ha, hrest⟩ := List.append_eq_map_iff.1 hms
    obtain ⟨m, b, rfl, hm, -⟩ := List.map_eq_cons_iff.1 hrest
    refine ⟨m, hm.symm, fun h => hpoint (by simp [h]), ?_⟩
    rintro rfl
    rw [(read_spec ha.symm fun hp => hpoint (List.mem_append_left _ hp)).1]
    exact List.count_eq_zero.2 (horder a b rfl)

/-- The last group needs a digit, where there is a grouping separator. -/
theorem groupingSize_eq_ok {i : IntegerPart} (h : i.lastGroup.isSome → i.grouped ≠ 0) :
    i.groupingSize = .ok (if i.lastGroup.isSome then i.grouped else 0) := by
  unfold groupingSize
  cases hl : i.lastGroup with
  | none => rfl
  | some position => simp [h (by simp [hl])]

theorem grouped_ne_zero_of_groupingSize {i : IntegerPart} {size : Nat}
    (h : i.groupingSize = .ok size) (hs : i.lastGroup.isSome) : i.grouped ≠ 0 := by
  intro hz
  obtain ⟨position, hl⟩ := Option.isSome_iff_exists.1 hs
  simp [groupingSize, hl, hz] at h

end IntegerPart

namespace Layout

theorem readBody_append {i : IntegerPart} {ls : List Lexeme} (h : i.Reads ls)
    (rest : List Lexeme) : readBody i (ls ++ rest) = readBody (ls.foldl .read i) rest := by
  induction ls generalizing i with
  | nil => rfl
  | cons l ls ih =>
    obtain ⟨⟨m, hm, hpoint, hoptional⟩, hls⟩ := IntegerPart.reads_cons_iff.1 h
    obtain ⟨position, token⟩ := l
    cases (show token = .marker m from hm)
    rw [List.foldl_cons, ← ih hls, List.cons_append]
    cases m with
    | required => rfl
    | optional => simp [readBody, hoptional rfl, IntegerPart.read]
    | point => exact absurd rfl hpoint
    | group => rfl

/-- Reading succeeds only on an integer part, at the end of which is a decimal separator or
nothing. -/
theorem exists_of_readBody {i : IntegerPart} {ls : List Lexeme} {layout : Layout}
    (h : readBody i ls = .ok layout) : ∃ a rest, ls = a ++ rest ∧ i.Reads a ∧
      (rest = [] ∨ ∃ position after, rest = ⟨position, .marker .point⟩ :: after) := by
  induction ls generalizing i with
  | nil => exact ⟨[], [], rfl, i.reads_nil, .inl rfl⟩
  | cons l ls ih =>
    obtain ⟨position, token⟩ := l
    have step {m : Marker} (hpoint : m ≠ .point) (hoptional : m = .optional → i.required = 0)
        (h : readBody (i.read ⟨position, .marker m⟩) ls = .ok layout) :
        ∃ a rest, (⟨position, .marker m⟩ :: ls : List Lexeme) = a ++ rest ∧ i.Reads a ∧
          (rest = [] ∨ ∃ position after, rest = ⟨position, .marker .point⟩ :: after) := by
      obtain ⟨a, rest, rfl, ha, hrest⟩ := ih h
      exact ⟨⟨position, .marker m⟩ :: a, rest, rfl,
        IntegerPart.reads_cons_iff.2 ⟨⟨m, rfl, hpoint, hoptional⟩, ha⟩, hrest⟩
    rcases token with (_ | _ | _ | _) | p
    · exact step (by decide) (by simp) h
    · by_cases hr : 0 < i.required
      · simp [readBody, hr] at h
      · rw [readBody, if_neg hr] at h
        exact step (by decide) (fun _ => by omega) h
    · exact ⟨[], _, rfl, i.reads_nil, .inr ⟨position, ls, rfl⟩⟩
    · exact step (by decide) (by simp) h
    · cases h

/-! ## Fractions -/

/-- The tokens of a fraction: required digits, then optional ones. -/
def fractionTokens (required optional : Nat) : List Token :=
  (List.replicate required Marker.required ++ List.replicate optional Marker.optional).map .marker

theorem cons_eq_fractionTokens_iff {t : Token} {ts : List Token} {required optional : Nat} :
    t :: ts = fractionTokens required optional ↔
      (t = .marker .required ∧ ∃ k, required = k + 1 ∧ ts = fractionTokens k optional) ∨
      (t = .marker .optional ∧ required = 0 ∧
        ∃ k, optional = k + 1 ∧ ts = fractionTokens 0 k) := by
  cases required with
  | succ r => simp [fractionTokens, List.replicate_succ]
  | zero => cases optional <;> simp [fractionTokens, List.replicate_succ]

theorem readFraction_eq_ok_iff {f g : FractionPart} {ls : List Lexeme} :
    readFraction f ls = .ok g ↔ ∃ required optional,
      ls.map (·.token) = fractionTokens required optional ∧
      (f.optional = 0 ∨ required = 0) ∧ g = ⟨f.required + required, f.optional + optional⟩ := by
  induction ls generalizing f with
  | nil =>
    constructor
    · intro h
      cases h
      exact ⟨0, 0, rfl, .inr rfl, rfl⟩
    · intro hexists
      obtain ⟨required, optional, h, -, rfl⟩ := hexists
      simp [fractionTokens] at h
      obtain ⟨rfl, rfl⟩ := h
      rfl
  | cons l ls ih =>
    obtain ⟨position, token⟩ := l
    simp only [List.map_cons, cons_eq_fractionTokens_iff]
    have shift (a b : Nat) : a + 1 + b = a + (b + 1) := by omega
    rcases token with (_ | _ | _ | _) | p
    · by_cases ho : 0 < f.optional
      · constructor
        · intro h
          simp [readFraction, ho] at h
        · intro hexists
          rcases hexists with ⟨required, optional, ⟨-, k, rfl, -⟩ | ⟨h, -⟩, hor, -⟩
          · omega
          · cases h
      · rw [readFraction, if_neg ho, ih]
        constructor
        · intro hexists
          obtain ⟨required, optional, hls, -, rfl⟩ := hexists
          exact ⟨required + 1, optional, .inl ⟨rfl, required, rfl, hls⟩, .inl (by omega),
            by simp [shift]⟩
        · intro hexists
          rcases hexists with ⟨required, optional, ⟨-, k, rfl, hls⟩ | ⟨h, -⟩, -, rfl⟩
          · exact ⟨k, optional, hls, .inl (Nat.eq_zero_of_not_pos ho), by simp [shift]⟩
          · cases h
    · rw [readFraction, ih]
      constructor
      · intro hexists
        obtain ⟨required, optional, hls, hor, rfl⟩ := hexists
        obtain rfl : required = 0 := by simpa using hor
        exact ⟨0, optional + 1, .inr ⟨rfl, rfl, optional, rfl, hls⟩, .inr rfl,
          by simp [shift]⟩
      · intro hexists
        rcases hexists with ⟨required, optional, ⟨h, -⟩ | ⟨-, rfl, k, rfl, hls⟩, -, rfl⟩
        · cases h
        · exact ⟨0, k, hls, .inr rfl, by simp [shift]⟩
    -- a fraction has no other marker and no part
    all_goals simp [readFraction]

/-! ## Bodies -/

theorem ofInteger_eq {i : IntegerPart} (h : i.lastGroup.isSome → i.grouped ≠ 0) :
    ofInteger i = .ok
      { groupingSize := if i.lastGroup.isSome then i.grouped else 0
        limits := { minInteger := i.required } } := by
  rw [ofInteger, IntegerPart.groupingSize_eq_ok h]
  rfl

theorem ofBody_of_valid {n : NumberForm} (hn : n.Valid) {ls : List Lexeme}
    (h : ls.map (·.token) = n.markers.map .marker) : ofBody ls = .ok n.layout := by
  obtain ⟨integer, fraction⟩ := n
  by_cases hnil : ls = []
  · subst hnil
    obtain ⟨rfl, hf⟩ := List.append_eq_nil_iff.1 (List.map_eq_nil_iff.1 h.symm)
    cases fraction with
    | none => rfl
    | some f => cases hf
  rw [NumberForm.markers, List.map_append] at h
  obtain ⟨a, rest, rfl, ha, hrest⟩ := List.map_eq_append_iff.1 h
  have hreads := IntegerPart.reads_iff.2 ⟨integer, ha, hn.noPoint, hn.optionalFirst⟩
  obtain ⟨hr, hg, hs⟩ := IntegerPart.read_spec ha hn.noPoint
  have hgrouped : (a.foldl IntegerPart.read {}).lastGroup.isSome →
      (a.foldl IntegerPart.read {}).grouped ≠ 0 := by
    intro hsome
    rw [hg, Ne, List.length_eq_zero_iff]
    exact hn.grouped (hs.1 hsome)
  have hbody : ofBody (a ++ rest) = readBody (a.foldl .read {}) rest := by
    rw [← readBody_append hreads]
    cases h : a ++ rest with
    | nil => exact absurd h hnil
    | cons => rfl
  have hinteger := ofInteger_eq hgrouped
  simp only [hs, hg, hr] at hinteger
  cases fraction with
  | none =>
    obtain rfl := List.map_eq_nil_iff.1 hrest
    have hne : integer ≠ [] := by
      rintro rfl
      exact hnil (by simpa using ha)
    rw [hbody, readBody, hinteger]
    simp [NumberForm.layout, NumberForm.markers, NumberForm.lastGroup, hne]
  | some f =>
    obtain ⟨l, after, rfl, hl, hafter⟩ := List.map_eq_cons_iff.1 hrest
    obtain ⟨position, token⟩ := l
    cases (show token = .marker .point from hl)
    obtain ⟨required, optional, rfl⟩ := hn.requiredFirst f rfl
    have hfraction : readFraction {} after = .ok ⟨0 + required, 0 + optional⟩ :=
      readFraction_eq_ok_iff.2 ⟨required, optional, hafter, .inl rfl, rfl⟩
    rw [hbody, readBody, hinteger, hfraction]
    have hcount : (List.replicate optional Marker.optional).count .required = 0 := by
      simp [List.count_replicate]
    simp [NumberForm.layout, NumberForm.markers, NumberForm.lastGroup, hcount]
    rfl

theorem exists_form_of_ofBody {ls : List Lexeme} {layout : Layout}
    (h : ofBody ls = .ok layout) :
    ∃ n : NumberForm, n.Valid ∧ ls.map (·.token) = n.markers.map .marker := by
  have hbody : ls = [] ∨ readBody {} ls = .ok layout := by
    cases ls with
    | nil => exact .inl rfl
    | cons => exact .inr h
  rcases hbody with rfl | hbody
  · exact ⟨{}, NumberForm.valid_empty, rfl⟩
  obtain ⟨a, rest, rfl, hreads, hrest⟩ := exists_of_readBody hbody
  obtain ⟨ms, hms, hpoint, horder⟩ := IntegerPart.reads_iff.1 hreads
  obtain ⟨-, hg, hs⟩ := IntegerPart.read_spec hms hpoint
  rw [readBody_append hreads] at hbody
  have hgrouped {integer : Layout} (hi : ofInteger (a.foldl .read {}) = .ok integer) :
      .group ∈ ms → ms.rtakeWhile (· ≠ .group) ≠ [] := by
    intro hm hnil
    obtain ⟨size, hsize, -⟩ := bind_eq_ok_iff.1 hi
    exact IntegerPart.grouped_ne_zero_of_groupingSize hsize (hs.2 hm) (by rw [hg, hnil]; rfl)
  rcases hrest with rfl | ⟨position, after, rfl⟩
  · exact ⟨⟨ms, none⟩, ⟨hpoint, horder, hgrouped hbody, by simp⟩,
      by simp [NumberForm.markers, hms]⟩
  · obtain ⟨integer, hi, hf⟩ := bind_eq_ok_iff.1 hbody
    obtain ⟨f, hf, -⟩ := bind_eq_ok_iff.1 hf
    obtain ⟨required, optional, hafter, -, -⟩ := readFraction_eq_ok_iff.1 hf
    refine ⟨⟨ms, some (.replicate required .required ++ .replicate optional .optional)⟩,
      ⟨hpoint, horder, hgrouped hi, ?_⟩, ?_⟩
    · rintro _ ⟨⟩
      exact ⟨required, optional, rfl⟩
    · rw [List.map_append, List.map_cons, hms, hafter, NumberForm.markers, List.map_append]
      rfl

/-- **Number bodies.** Reading a body accepts the forms of the grammar and lays them out. -/
theorem ofBody_eq_ok_iff {ls : List Lexeme} {layout : Layout} :
    ofBody ls = .ok layout ↔ ∃ n : NumberForm, n.Valid ∧
      ls.map (·.token) = n.markers.map .marker ∧ layout = n.layout := by
  constructor
  · intro h
    obtain ⟨n, hn, hls⟩ := exists_form_of_ofBody h
    rw [ofBody_of_valid hn hls] at h
    cases h
    exact ⟨n, hn, hls, rfl⟩
  · intro hexists
    obtain ⟨n, hn, hls, rfl⟩ := hexists
    exact ofBody_of_valid hn hls

end Layout

end Numerals
