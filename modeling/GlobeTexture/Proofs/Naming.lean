import GlobeTexture.Operation
import GlobeTexture.Projection.Catalog
import Mathlib.Data.List.Forall2
import Mathlib.Data.List.Nodup

/-! # Which texts are names

A text is looked up by its lower case, and beyond ASCII a lower case can be longer than the text, depend on what stands
around a character, or hold an ASCII letter. None of this matters for the names there are: whichever lower case is taken,
exactly those texts are found that differ from a name in the case of ASCII letters and, for operations, in low lines that
stand for hyphens. -/

namespace GlobeTexture

namespace Name

/-! ### Lower case -/

/-- What is known of the lower case of a character, wherever it stands. Beyond ASCII it lies beyond ASCII as well, but for
    two characters. -/
inductive LowerCase : Char → List Char → Prop
  | ascii {c : Char} (hc : c.isAscii = true) : LowerCase c [c.toLower]
  | kelvinSign : LowerCase kelvinSign ['k']
  | dottedI : LowerCase dottedI ['i', dotAbove]
  | beyond {c : Char} {cs : List Char} (hc : c.isAscii = false) (hkelvin : c ≠ Name.kelvinSign)
      (hdotted : c ≠ Name.dottedI) (hne : cs ≠ []) (hcs : ∀ x ∈ cs, x.isAscii = false) : LowerCase c cs

/-- `t` is a lower case of the text `s`. -/
inductive Lowers : List Char → List Char → Prop
  | nil : Lowers [] []
  | cons {c : Char} {cs s t : List Char} (hc : LowerCase c cs) (hs : Lowers s t) : Lowers (c :: s) (cs ++ t)

theorem toLower_of_not_ascii {c : Char} (h : c.isAscii = false) : c.toLower = c := by
  refine dif_neg ?_
  rintro ⟨-, hle⟩
  have hz : c.toNat ≤ 90 := UInt32.le_iff_toNat_le.mp hle
  have hbeyond : ¬c.toNat < 128 := of_decide_eq_false h
  omega

theorem lowerCase_lowerChar (c : Char) : LowerCase c (lowerChar c) := by
  unfold lowerChar
  split
  · subst c
    exact .kelvinSign
  · split
    · subst c
      exact .dottedI
    · cases hc : c.isAscii with
      | true => exact .ascii hc
      | false =>
        rw [toLower_of_not_ascii hc]
        exact .beyond hc ‹_› ‹_› (List.cons_ne_nil _ _) fun x hx => List.mem_singleton.mp hx ▸ hc

theorem lowers_lower (s : String) : Lowers s.toList (lower s) := by
  rw [lower]
  induction s.toList with
  | nil => exact .nil
  | cons c cs ih => exact .cons (lowerCase_lowerChar c) ih

namespace LowerCase

variable {c : Char} {cs : List Char}

theorem of_ascii (h : LowerCase c cs) (hc : c.isAscii = true) : cs = [c.toLower] := by
  cases h with
  | ascii => rfl
  | kelvinSign => exact absurd hc (by decide)
  | dottedI => exact absurd hc (by decide)
  | beyond hc' => exact absurd (hc.symm.trans hc') (by decide)

/-- The letter k is all of ASCII that a character beyond it can come to as a whole. -/
theorem of_not_ascii (h : LowerCase c cs) (hc : c.isAscii = false) : 'k' ∈ cs ∨ ∃ x ∈ cs, x.isAscii = false := by
  cases h with
  | ascii hc' => exact absurd (hc'.symm.trans hc) (by decide)
  | kelvinSign => exact Or.inl (List.mem_singleton.mpr rfl)
  | dottedI => exact Or.inr ⟨dotAbove, by simp, by decide⟩
  | beyond _ _ _ hne hcs =>
    obtain ⟨x, hx⟩ := List.exists_mem_of_ne_nil _ hne
    exact Or.inr ⟨x, hx, hcs x hx⟩

end LowerCase

/-! ### Spellings -/

/-- `c` is the character `a`, or the same ASCII letter in another case. -/
def Recased (a c : Char) : Prop :=
  c = a ∨ c = a.toUpper ∨ c = a.toLower

/-- `c` is the character `a` up to case, or a low line in place of a hyphen. -/
def Respelled (a c : Char) : Prop :=
  Recased a c ∨ a = '-' ∧ c = '_'

/-- The text is the name up to the case of ASCII letters. -/
def Cased (name s : String) : Prop :=
  List.Forall₂ Recased name.toList s.toList

/-- The text is the name up to the case of ASCII letters and low lines in place of hyphens. -/
def Spelled (name s : String) : Prop :=
  List.Forall₂ Respelled name.toList s.toList

/-- What names are made of: ASCII in lower case, without the letter that stands for a character beyond ASCII and without
    low lines. -/
def Plain (a : Char) : Prop :=
  a.isAscii = true ∧ a.toLower = a ∧ a ≠ 'k' ∧ a ≠ '_'

instance (a : Char) : Decidable (Plain a) :=
  inferInstanceAs (Decidable (_ ∧ _))

/-- A text of such characters only. -/
def AllPlain (cs : List Char) : Prop :=
  ∀ a ∈ cs, Plain a

-- Decided along the text, since going through all characters there are would take too long.
instance (cs : List Char) : Decidable (AllPlain cs) :=
  List.decidableBAll Plain cs

/-- A low line read as a hyphen. -/
def hyphen (c : Char) : Char :=
  if c = '_' then '-' else c

theorem hyphenated_eq_map (cs : List Char) : hyphenated cs = cs.map hyphen :=
  rfl

/-- A property of all ASCII characters, checked one by one. -/
theorem forall_ascii {p : Char → Prop} (h : ∀ n < 128, p (Char.ofNat n)) {c : Char} (hc : c.isAscii = true) : p c := by
  have hofNat := h c.toNat (of_decide_eq_true hc)
  rwa [Char.ofNat_toNat] at hofNat

theorem recased_toLower {c : Char} (hc : c.isAscii = true) : Recased c.toLower c :=
  have hcases : c = c.toLower ∨ c = c.toLower.toUpper :=
    forall_ascii (p := fun c => c = c.toLower ∨ c = c.toLower.toUpper) (by decide) hc
  hcases.imp_right Or.inl

theorem isAscii_of_hyphen {c : Char} (h : (hyphen c).isAscii = true) : c.isAscii = true := by
  unfold hyphen at h
  split at h
  · subst c
    rfl
  · exact h

namespace Plain

variable {a c : Char} (ha : Plain a)
include ha

theorem recased_iff : Recased a c ↔ c.isAscii = true ∧ c.toLower = a := by
  obtain ⟨hascii, hlower, -, -⟩ := ha
  refine ⟨?_, ?_⟩
  · rintro (rfl | rfl | rfl)
    · exact ⟨hascii, hlower⟩
    · exact forall_ascii (p := fun a => a.toLower = a → a.toUpper.isAscii = true ∧ a.toUpper.toLower = a) (by decide)
        hascii hlower
    · exact ⟨hlower.symm ▸ hascii, (congrArg Char.toLower hlower).trans hlower⟩
  · rintro ⟨hc, rfl⟩
    exact recased_toLower hc

theorem respelled_iff : Respelled a c ↔ c.isAscii = true ∧ hyphen c.toLower = a := by
  obtain ⟨-, -, -, hline⟩ := id ha
  rw [Respelled, ha.recased_iff, hyphen]
  refine ⟨?_, ?_⟩
  · rintro (⟨hc, rfl⟩ | ⟨rfl, rfl⟩)
    · exact ⟨hc, if_neg hline⟩
    · exact ⟨by decide, by decide⟩
  · rintro ⟨hc, heq⟩
    split at heq
    · -- Only the low line itself has a low line as its lower case.
      have hself : c = '_' := forall_ascii (p := fun c => c.toLower = '_' → c = '_') (by decide) hc ‹_›
      exact Or.inr ⟨heq.symm, hself⟩
    · exact Or.inl ⟨hc, heq⟩

end Plain

/-- A lower case, read character by character, is a plain name exactly if the text itself is the name character by character.
    The induction is on the text: a character beyond ASCII leaves something in the lower case that no name has. -/
theorem map_eq_iff_forall₂ {f : Char → Char} {r : Char → Char → Prop} {s t : List Char} (hs : Lowers s t)
    (hf : ∀ {x}, (f x).isAscii = true → x.isAscii = true) (hk : f 'k' = 'k')
    (hr : ∀ {a c}, Plain a → (r a c ↔ c.isAscii = true ∧ f c.toLower = a)) {name : List Char}
    (hname : AllPlain name) : t.map f = name ↔ List.Forall₂ r name s := by
  induction hs generalizing name with
  | nil => rw [List.map_nil, List.forall₂_nil_right_iff, eq_comm]
  | @cons c cs s t hc hs ih =>
    cases hascii : c.isAscii with
    | true =>
      obtain rfl := hc.of_ascii hascii
      cases name with
      | nil => simp
      | cons a name =>
        obtain ⟨ha, hname⟩ := List.forall_mem_cons.mp hname
        rw [List.singleton_append, List.map_cons, List.cons.injEq, List.forall₂_cons, ih hname, hr ha]
        simp only [hascii, true_and]
    | false =>
      refine iff_of_false (fun heq => ?_) fun hforall => ?_
      · have hmem {x : Char} (hx : x ∈ cs) : Plain (f x) :=
          hname _ (heq ▸ List.mem_map_of_mem (List.mem_append_left t hx))
        rcases hc.of_not_ascii hascii with hx | ⟨x, hx, hbeyond⟩
        · exact (hmem hx).2.2.1 hk
        · exact absurd ((hf (hmem hx).1).symm.trans hbeyond) (by decide)
      · obtain ⟨a, name, hac, -, rfl⟩ := List.forall₂_cons_right_iff.mp hforall
        have hc' := ((hr (hname a (List.mem_cons_self ..))).mp hac).1
        exact absurd (hc'.symm.trans hascii) (by decide)

section Lookup
variable {name s : String} {t : List Char} (hs : Lowers s.toList t) (hname : AllPlain name.toList)
include hs hname

theorem eq_iff_cased : t = name.toList ↔ Cased name s := by
  have h := map_eq_iff_forall₂ hs id (f := id) rfl (fun ha => ha.recased_iff) hname
  rwa [List.map_id] at h

theorem hyphenated_eq_iff_spelled : hyphenated t = name.toList ↔ Spelled name s := by
  rw [hyphenated_eq_map]
  exact map_eq_iff_forall₂ hs isAscii_of_hyphen rfl (fun ha => ha.respelled_iff) hname

end Lookup

theorem forall_of_forall₂ {r : Char → Char → Prop} {p : Char → Prop} {name s : List Char} (hname : AllPlain name)
    (hr : ∀ {a c}, Plain a → r a c → p c) (h : List.Forall₂ r name s) : ∀ c ∈ s, p c := by
  induction h with
  | nil => simp
  | cons hac _ ih =>
    obtain ⟨ha, hname⟩ := List.forall_mem_cons.mp hname
    exact List.forall_mem_cons.mpr ⟨hr ha hac, ih hname⟩

section Characters
variable {name s : String} (hname : AllPlain name.toList)
include hname

theorem Spelled.isAscii (h : Spelled name s) : ∀ c ∈ s.toList, c.isAscii = true :=
  forall_of_forall₂ hname (fun ha hac => (ha.respelled_iff.mp hac).1) h

theorem Cased.isAscii (h : Cased name s) : ∀ c ∈ s.toList, c.isAscii = true :=
  forall_of_forall₂ hname (fun ha hac => (ha.recased_iff.mp hac).1) h

theorem Cased.ne_lowLine (h : Cased name s) : ∀ c ∈ s.toList, c ≠ '_' := by
  refine forall_of_forall₂ hname (fun ha hac => ?_) h
  rintro rfl
  exact ha.2.2.2 (ha.recased_iff.mp hac).2.symm

end Characters

/-- Of entries with different keys, the one with a given key is found. -/
theorem find?_key_eq_some_iff {ι : Type} {key : ι → List Char} {entries : List ι} (h : (entries.map key).Nodup)
    {t : List Char} {x : ι} : entries.find? (fun y => key y == t) = some x ↔ x ∈ entries ∧ key x = t := by
  have hkey {y : ι} (hy : entries.find? (fun y => key y == t) = some y) : key y = t := by
    simpa using List.find?_some hy
  refine ⟨fun hx => ⟨List.mem_of_find?_eq_some hx, hkey hx⟩, ?_⟩
  rintro ⟨hmem, hx⟩
  obtain ⟨y, hy⟩ : ∃ y, entries.find? (fun y => key y == t) = some y :=
    Option.isSome_iff_exists.mp (List.find?_isSome.mpr ⟨x, hmem, by simpa using hx⟩)
  rw [hy, List.inj_on_of_nodup_map h (List.mem_of_find?_eq_some hy) hmem ((hkey hy).trans hx.symm)]

end Name

/-! ### The names there are -/

namespace Operation

/-- The operation that a lower case names. -/
def ofLower? (t : List Char) : Option Operation :=
  all.find? fun op => op.name.toList == Name.hyphenated t

theorem mem_all (op : Operation) : op ∈ all := by
  cases op <;> decide

theorem allPlain_name (op : Operation) : Name.AllPlain op.name.toList := by
  cases op <;> decide

theorem ofLower?_eq_some_iff {s : String} {t : List Char} (hs : Name.Lowers s.toList t) {op : Operation} :
    ofLower? t = some op ↔ Name.Spelled op.name s := by
  rw [ofLower?, Name.find?_key_eq_some_iff (by decide), ← Name.hyphenated_eq_iff_spelled hs op.allPlain_name, eq_comm]
  exact and_iff_right op.mem_all

theorem ofName?_eq (s : String) : ofName? s = ofLower? (Name.lower s) :=
  rfl

theorem ofName?_eq_some_iff {s : String} {op : Operation} : ofName? s = some op ↔ Name.Spelled op.name s := by
  rw [ofName?_eq, ofLower?_eq_some_iff (Name.lowers_lower s)]

end Operation

namespace MapKind

/-- The projection that a lower case names. -/
def ofLower? (t : List Char) : Option MapKind :=
  (names.find? fun entry => entry.1.toList == t).map Prod.snd

theorem allPlain_of_mem_names {entry : String × MapKind} (h : entry ∈ names) : Name.AllPlain entry.1.toList := by
  revert entry
  decide

theorem ofLower?_eq_some_iff {s : String} {t : List Char} (hs : Name.Lowers s.toList t) {kind : MapKind} :
    ofLower? t = some kind ↔ ∃ name, (name, kind) ∈ names ∧ Name.Cased name s := by
  simp only [ofLower?, Option.map_eq_some_iff, Prod.exists, exists_eq_right]
  refine exists_congr fun name => ?_
  rw [Name.find?_key_eq_some_iff (by decide)]
  exact and_congr_right fun hmem => eq_comm.trans (Name.eq_iff_cased hs (allPlain_of_mem_names hmem))

theorem ofName?_eq (s : String) : ofName? s = ofLower? (Name.lower s) :=
  rfl

theorem ofName?_eq_some_iff {s : String} {kind : MapKind} :
    ofName? s = some kind ↔ ∃ name, (name, kind) ∈ names ∧ Name.Cased name s := by
  rw [ofName?_eq, ofLower?_eq_some_iff (Name.lowers_lower s)]

theorem map_projection_ofName?_eq_some_iff {s : String} {π : Projection} :
    (ofName? s).map projection = some π ↔
      ∃ name, Name.Cased name s ∧ (name, π) ∈ names.map fun entry => (entry.1, entry.2.projection) := by
  simp only [Option.map_eq_some_iff, ofName?_eq_some_iff, List.mem_map, Prod.mk.injEq, Prod.exists]
  constructor
  · rintro ⟨kind, ⟨name, hmem, hcased⟩, hπ⟩
    exact ⟨name, hcased, name, kind, hmem, rfl, hπ⟩
  · rintro ⟨name, hcased, _, kind, hmem, rfl, hπ⟩
    exact ⟨kind, ⟨_, hmem, hcased⟩, hπ⟩

end MapKind

/-- An operation is found under exactly those texts that spell its name, up to the case of ASCII letters and low lines in
    place of hyphens, and no text spells two of the names. A projection is found under exactly those texts that are one of
    its names up to the case of ASCII letters, so a low line does not stand for a hyphen there. No text that goes beyond
    ASCII is a name. All of this holds whichever lower case a text is looked up by. The names are those listed, and each
    name of a projection stands for the one that it is listed with. -/
theorem ofName?_grammar (s : String) :
    (∀ op, Operation.ofName? s = some op ↔ Name.Spelled op.name s) ∧
    (∀ op op' : Operation, Name.Spelled op.name s → Name.Spelled op'.name s → op = op') ∧
    (∀ kind, MapKind.ofName? s = some kind ↔ ∃ name, Name.Cased name s ∧ (name, kind) ∈
      [("hammer", MapKind.hammer), ("hammer-aitoff", .hammer), ("mercator", .mercator),
        ("equirectangular", .equirectangular), ("polar", .equirectangular)]) ∧
    ('_' ∈ s.toList → MapKind.ofName? s = none) ∧
    ((∃ c ∈ s.toList, c.isAscii = false) → Operation.ofName? s = none ∧ MapKind.ofName? s = none) ∧
    (∀ t, Name.Lowers s.toList t → Operation.ofName? s = Operation.ofLower? t ∧ MapKind.ofName? s = MapKind.ofLower? t) ∧
    Operation.all.map Operation.name = ["hammer-tile", "polar-to-hammer", "polar-to-mercator"] ∧
    ∀ π, (MapKind.ofName? s).map MapKind.projection = some π ↔ ∃ name, Name.Cased name s ∧ (name, π) ∈
      [("hammer", Hammer.projection), ("hammer-aitoff", Hammer.projection), ("mercator", Mercator.projection),
        ("equirectangular", Equirectangular.projection), ("polar", Equirectangular.projection)] := by
  refine ⟨fun op => Operation.ofName?_eq_some_iff, fun op op' h h' => ?_, fun kind => ?_, fun hline => ?_, ?_,
    fun t hs => ⟨?_, ?_⟩, rfl, fun π => MapKind.map_projection_ofName?_eq_some_iff⟩
  · rw [← Operation.ofName?_eq_some_iff] at h h'
    exact Option.some.inj (h.symm.trans h')
  · rw [MapKind.ofName?_eq_some_iff]
    exact exists_congr fun name => and_comm
  · rw [Option.eq_none_iff_forall_ne_some]
    intro kind h
    obtain ⟨name, hmem, hcased⟩ := MapKind.ofName?_eq_some_iff.mp h
    exact hcased.ne_lowLine (MapKind.allPlain_of_mem_names hmem) '_' hline rfl
  · rintro ⟨c, hc, hbeyond⟩
    simp only [Option.eq_none_iff_forall_ne_some]
    refine ⟨fun op h => ?_, fun kind h => ?_⟩
    · have hascii := (Operation.ofName?_eq_some_iff.mp h).isAscii op.allPlain_name c hc
      exact absurd (hascii.symm.trans hbeyond) (by decide)
    · obtain ⟨name, hmem, hcased⟩ := MapKind.ofName?_eq_some_iff.mp h
      have hascii := hcased.isAscii (MapKind.allPlain_of_mem_names hmem) c hc
      exact absurd (hascii.symm.trans hbeyond) (by decide)
  · exact Option.ext fun op => Operation.ofName?_eq_some_iff.trans (Operation.ofLower?_eq_some_iff hs).symm
  · exact Option.ext fun kind => MapKind.ofName?_eq_some_iff.trans (MapKind.ofLower?_eq_some_iff hs).symm

/-- A low line that stands for a hyphen in one lookup and not in the other, a letter beyond ASCII whose lower case starts
    with an ASCII letter, one whose lower case depends on where it stands, and a second name of a projection. -/
theorem ofName?_grammar_mixed :
    Operation.ofName? "Polar_TO-Mercator" = some .polarToMercator ∧
      Name.Spelled "polar-to-mercator" "Polar_TO-Mercator" ∧
      '_' ∈ "Hammer_Aitoff".toList ∧ MapKind.ofName? "Hammer_Aitoff" = none ∧
      (∃ c ∈ "HAMMER-T\u0130LE".toList, c.isAscii = false) ∧ Operation.ofName? "HAMMER-T\u0130LE" = none ∧
      Name.Lowers "\u03a3".toList ['\u03c2'] ∧ MapKind.ofName? "\u03a3" = MapKind.ofLower? ['\u03c2'] ∧
      (MapKind.ofName? "Polar").map MapKind.projection = some Equirectangular.projection := by
  have hfound : Operation.ofName? "Polar_TO-Mercator" = some .polarToMercator := by decide
  have hline : '_' ∈ "Hammer_Aitoff".toList := by decide
  have hdotted : ∃ c ∈ "HAMMER-T\u0130LE".toList, c.isAscii = false := ⟨'\u0130', by decide, rfl⟩
  have hsigma : Name.LowerCase '\u03a3' ['\u03c2'] :=
    .beyond rfl (by decide) (by decide) (by decide) (List.forall_mem_singleton.mpr rfl)
  have hfinal : Name.Lowers "\u03a3".toList ['\u03c2'] := .cons hsigma .nil
  have hcased : Name.Cased "polar" "Polar" :=
    .cons (Or.inr (Or.inl rfl)) (.cons (Or.inl rfl) (.cons (Or.inl rfl) (.cons (Or.inl rfl) (.cons (Or.inl rfl) .nil))))
  obtain ⟨hop, -⟩ := ofName?_grammar "Polar_TO-Mercator"
  obtain ⟨-, -, -, hhyphen, -⟩ := ofName?_grammar "Hammer_Aitoff"
  obtain ⟨-, -, -, -, hbeyond, -⟩ := ofName?_grammar "HAMMER-T\u0130LE"
  obtain ⟨-, -, -, -, -, hlower, -⟩ := ofName?_grammar "\u03a3"
  obtain ⟨-, -, -, -, -, -, -, hvalue⟩ := ofName?_grammar "Polar"
  exact ⟨hfound, (hop _).mp hfound, hline, hhyphen hline, hdotted, (hbeyond hdotted).1, hfinal, (hlower _ hfinal).2,
    (hvalue _).mpr ⟨"polar", hcased, by simp⟩⟩

end GlobeTexture
