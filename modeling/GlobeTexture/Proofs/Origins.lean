import GlobeTexture.Proofs.Session
import GlobeTexture.Proofs.Totality

/-! # Where pixels come from

An edit of a layer takes each pixel from a cell that the size of the layer settles, and never looks at a pixel. So edits
one after another do the same from the cells that are found by going back through them, and it makes no difference
whether pixels are exchanged for others before the edits or after them. -/

namespace GlobeTexture

/-! ### Edits -/

/-- A way to change the pixels of a layer by redrawing it. -/
inductive Edit where
  | operation (op : Operation) (options : Options)
  | resample (source target : Projection) (tileSize : Nat)

/-- The cell that a redrawing reads for a cell of the canvas. -/
def Redrawing.origin (m : Redrawing) (k : Canvas) (s : Nat) (c : Cell) : Cell :=
  (m.address? k s c).getD c

namespace Edit

/-- How an edit draws the pixels of the layer anew. -/
def redrawing : Edit → Redrawing
  | operation op _ => op.redrawing
  | resample source target _ => .resample source target

/-- The side of the tiles that an edit works with. -/
def tileSize : Edit → Nat
  | operation _ options => options.tileSize
  | resample _ _ s => s

/-- The cell from which a pixel comes on a canvas. -/
def origin (e : Edit) (k : Canvas) (c : Cell) : Cell :=
  e.redrawing.origin k e.tileSize c

/-- The canvas can be cut into tiles for the edit. -/
def Feasible (e : Edit) (k : Canvas) : Prop :=
  e.tileSize ≠ 0 ∧ Tile.plan k (.square e.tileSize) ≠ .error .outOfRange

variable {α : Type} [Pixel α]

/-- What is drawn from a source. -/
def draw (e : Edit) (src : Source α) : Traced (Raster α) :=
  match e with
  | operation op options => op.draw src options
  | resample source target s => GlobeTexture.resample src source target s

/-- The layer that an edit makes of a layer. -/
def applied (e : Edit) (l : Layer α) : Traced (Layer α) :=
  match e with
  | operation op options => op.applied l options
  | resample source target s => l.resampled source target s

theorem draw_eq (e : Edit) (src : Source α) : e.draw src = e.redrawing.draw src e.tileSize := by
  cases e with
  | operation op options => exact op.draw_eq src options
  | resample source target s => rfl

theorem result_applied (e : Edit) (l : Layer α) :
    (e.applied l).result = (l.redrawn (e.redrawing.draw l.pixels.source e.tileSize)).result := by
  cases e with
  | operation op options => exact op.result_applied options l
  | resample source target s => exact congrArg Traced.result (l.resampled_eq source target s)

theorem feasible_iff {e : Edit} {k : Canvas} :
    e.Feasible k ↔ ∃ tiles, Tile.plan k (.square e.tileSize) = .ok tiles := by
  refine ⟨fun h => Tile.exists_plan h.1 h.2, ?_⟩
  rintro ⟨tiles, hplan⟩
  refine ⟨Nat.ne_of_gt (Tile.plan_eq_ok hplan).1, ?_⟩
  rw [hplan]
  exact fun h => by cases h

theorem feasible_of_fits {e : Edit} {k : Canvas} (hk : k.Addressable) (hs : e.tileSize ≠ 0)
    (hword : e.tileSize < Word.limit) (hfits : Word.Fits (Tile.count k (.square e.tileSize)) Tile.bytes) :
    e.Feasible k :=
  ⟨hs, fun hrange => (Tile.plan_square_eq_outOfRange_iff hk hs hword).mp hrange hfits⟩

end Edit

/-! ### Copies -/

section Copies
variable {α β : Type} [Pixel α] [Pixel β]

theorem View.source_read_eq_ok_iff {v : View α} {c : Cell} {x : α} : v.source.read c = .ok x ↔ v.get? c = some x := by
  cases hget : v.get? c <;> simp [source, hget]

theorem Redrawing.origin_mem (m : Redrawing) {k : Canvas} {s : Nat} {tiles : List Tile}
    (hplan : Tile.plan k (.square s) = .ok tiles) (hk : k.Addressable) {c : Cell} (hc : c ∈ k) :
    m.origin k s c ∈ k := by
  obtain ⟨d, hd, haddress⟩ := m.exists_address? hplan hk hc
  rwa [origin, haddress]

theorem Redrawing.get?_of_copies (m : Redrawing) {v : View α} {s : Nat} {r : Raster α}
    (h : r.Copies v.source (m.address? v.canvas s)) {c : Cell} (hc : c ∈ v.canvas) :
    r.get? c = v.get? (m.origin v.canvas s c) := by
  obtain ⟨d, x, hd, hread, hget⟩ := h.pixel c hc
  rw [hget, origin, hd, Option.getD_some]
  exact (View.source_read_eq_ok_iff.mp hread).symm

/-- Drawing succeeds exactly where there is a plan, and then with a copy. -/
theorem Redrawing.draw_eq_ok_iff (m : Redrawing) {src : Source α} {s : Nat} {r : Raster α}
    (hk : src.canvas.Storable (Pixel.bytes α)) :
    (m.draw src s).result = .ok r ↔
      (∃ tiles, Tile.plan src.canvas (.square s) = .ok tiles) ∧ r.Copies src (m.address? src.canvas s) := by
  cases hplan : Tile.plan src.canvas (.square s) with
  | error e => simp [m.draw_of_plan_error hplan]
  | ok tiles => simpa using (m.draw_draws hplan hk).eq_ok_iff

/-- A copy with its pixels exchanged is a copy of the raster with its pixels exchanged. -/
theorem Raster.Copies.map {r r' : Raster α} {address? : Cell → Option Cell} (h : r'.Copies r.source address?)
    (f : α → β) (hr : r.canvas.Storable (Pixel.bytes β)) (hr' : r'.canvas.Storable (Pixel.bytes β)) :
    (r'.map f hr').Copies (r.map f hr).source address? := by
  refine ⟨h.canvas, fun c hc => ?_⟩
  obtain ⟨d, x, hd, hread, hget⟩ := h.pixel c hc
  refine ⟨d, f x, hd, source_read_eq_ok_iff.mpr ?_, ?_⟩
  · rw [get?_map, source_read_eq_ok_iff.mp hread, Option.map_some]
  · rw [get?_map, hget, Option.map_some]

end Copies

/-! ### Layers -/

section Layers
variable {α β : Type} [Pixel α] [Pixel β]

/-- The layer with its pixels exchanged for others. -/
def Layer.map (f : α → β) (l : Layer α) (h : l.pixels.canvas.Storable (Pixel.bytes β)) : Layer β where
  name := l.name
  pixels := l.pixels.map f h

/-- A layer of the same name and size whose pixel at `c` is the one at `g c`. -/
structure Layer.Gathers (l l' : Layer α) (g : Cell → Cell) : Prop where
  alike : l.Alike l'
  mem : ∀ c ∈ l.pixels.canvas, g c ∈ l.pixels.canvas
  pixel : ∀ c ∈ l.pixels.canvas, l'.pixels.get? c = l.pixels.get? (g c)

theorem Layer.Gathers.refl (l : Layer α) : l.Gathers l id :=
  ⟨.refl l, fun _ hc => hc, fun _ _ => rfl⟩

theorem Layer.Gathers.trans {l l' l'' : Layer α} {g g' : Cell → Cell} (h : l.Gathers l' g) (h' : l'.Gathers l'' g') :
    l.Gathers l'' (g ∘ g') := by
  obtain ⟨halike', hmem', hpixel'⟩ := h'
  rw [h.alike.canvas] at hmem' hpixel'
  refine ⟨h.alike.trans halike', fun c hc => h.mem _ (hmem' c hc), fun c hc => ?_⟩
  rw [hpixel' c hc, h.pixel _ (hmem' c hc)]
  rfl

namespace Edit

variable {e : Edit} {l l' : Layer α}

theorem applied_eq_ok_iff : (e.applied l).result = .ok l' ↔
    ∃ r, (e.Feasible l.pixels.canvas ∧ r.Copies l.pixels.source (e.redrawing.address? l.pixels.canvas e.tileSize)) ∧
      { l with pixels := r } = l' := by
  have hdraw : ∀ r, (e.redrawing.draw l.pixels.source e.tileSize).result = .ok r ↔ _ ∧ _ := fun r =>
    e.redrawing.draw_eq_ok_iff l.pixels.storable
  rw [result_applied, Layer.redrawn, Failure.map_eq_ok_iff]
  simp only [hdraw, feasible_iff]
  rfl

theorem exists_applied_iff : (∃ l', (e.applied l).result = .ok l') ↔ e.Feasible l.pixels.canvas := by
  constructor
  · rintro ⟨l', h⟩
    obtain ⟨r, ⟨hfeasible, -⟩, -⟩ := applied_eq_ok_iff.mp h
    exact hfeasible
  · intro hfeasible
    obtain ⟨tiles, hplan⟩ := feasible_iff.mp hfeasible
    obtain ⟨r, -, hcopies⟩ := e.redrawing.draw_eq_ok l.pixels.view.source_complete hplan l.pixels.view.source_storable
    exact ⟨_, applied_eq_ok_iff.mpr ⟨r, ⟨hfeasible, hcopies⟩, rfl⟩⟩

theorem gathers_of_applied (h : (e.applied l).result = .ok l') : l.Gathers l' (e.origin l.pixels.canvas) := by
  obtain ⟨r, ⟨hfeasible, hcopies⟩, rfl⟩ := applied_eq_ok_iff.mp h
  obtain ⟨tiles, hplan⟩ := feasible_iff.mp hfeasible
  refine ⟨⟨rfl, hcopies.canvas⟩, fun c hc => ?_, fun c hc => ?_⟩
  · exact e.redrawing.origin_mem hplan l.pixels.storable.1 hc
  · exact e.redrawing.get?_of_copies (v := l.pixels.view) hcopies hc

theorem applied_map (h : (e.applied l).result = .ok l') (f : α → β) (hl : l.pixels.canvas.Storable (Pixel.bytes β)) :
    ∃ hl', (e.applied (l.map f hl)).result = .ok (l'.map f hl') := by
  obtain ⟨r, ⟨hfeasible, hcopies⟩, rfl⟩ := applied_eq_ok_iff.mp h
  have hr : r.canvas.Storable (Pixel.bytes β) := by rwa [show r.canvas = _ from hcopies.canvas]
  exact ⟨hr, applied_eq_ok_iff.mpr ⟨r.map f hr, ⟨hfeasible, hcopies.map f hl hr⟩, rfl⟩⟩

/-- The cell from which a pixel comes through edits one after another: the last of them is the first to go back
    through. -/
def origins (edits : List Edit) (k : Canvas) : Cell → Cell :=
  edits.foldr (fun e g => e.origin k ∘ g) id

@[simp] theorem origins_nil (k : Canvas) (c : Cell) : origins [] k c = c :=
  rfl

@[simp] theorem origins_cons (e : Edit) (edits : List Edit) (k : Canvas) (c : Cell) :
    origins (e :: edits) k c = e.origin k (origins edits k c) :=
  rfl

end Edit

namespace Layer

/-- The layer after edits one after another, if all of them succeed. -/
def edited (l : Layer α) (edits : List Edit) : Except Failure (Layer α) :=
  edits.foldlM (fun l e => (e.applied l).result) l

variable {l l' : Layer α} {edits : List Edit}

theorem edited_cons_eq_ok_iff {e : Edit} :
    l.edited (e :: edits) = .ok l' ↔ ∃ l₁, (e.applied l).result = .ok l₁ ∧ l₁.edited edits = .ok l' := by
  rw [edited, List.foldlM_cons]
  cases h : (e.applied l).result with
  | error f => simp [bind, Except.bind]
  | ok l₁ => simp [bind, Except.bind, edited]

theorem exists_edited_iff : (∃ l', l.edited edits = .ok l') ↔ ∀ e ∈ edits, e.Feasible l.pixels.canvas := by
  induction edits generalizing l with
  | nil => exact ⟨fun _ e he => absurd he List.not_mem_nil, fun _ => ⟨l, rfl⟩⟩
  | cons e edits ih =>
    simp only [edited_cons_eq_ok_iff, List.forall_mem_cons]
    constructor
    · rintro ⟨l', l₁, happlied, hrest⟩
      have hcanvas := (Edit.gathers_of_applied happlied).alike.canvas
      exact ⟨Edit.exists_applied_iff.mp ⟨l₁, happlied⟩, hcanvas ▸ ih.mp ⟨l', hrest⟩⟩
    · rintro ⟨he, hedits⟩
      obtain ⟨l₁, happlied⟩ := Edit.exists_applied_iff.mpr he
      have hcanvas := (Edit.gathers_of_applied happlied).alike.canvas
      obtain ⟨l', hrest⟩ := ih.mpr (hcanvas.symm ▸ hedits)
      exact ⟨l', l₁, happlied, hrest⟩

theorem gathers_of_edited (h : l.edited edits = .ok l') : l.Gathers l' (Edit.origins edits l.pixels.canvas) := by
  induction edits generalizing l with
  | nil =>
    obtain rfl : l = l' := Except.ok.inj h
    exact .refl l
  | cons e edits ih =>
    obtain ⟨l₁, happlied, hrest⟩ := edited_cons_eq_ok_iff.mp h
    have hfirst := Edit.gathers_of_applied happlied
    have hlater := ih hrest
    rw [hfirst.alike.canvas] at hlater
    exact hfirst.trans hlater

theorem edited_map (h : l.edited edits = .ok l') (f : α → β) (hl : l.pixels.canvas.Storable (Pixel.bytes β)) :
    ∃ hl', (l.map f hl).edited edits = .ok (l'.map f hl') := by
  induction edits generalizing l with
  | nil =>
    obtain rfl : l = l' := Except.ok.inj h
    exact ⟨hl, rfl⟩
  | cons e edits ih =>
    obtain ⟨l₁, happlied, hrest⟩ := edited_cons_eq_ok_iff.mp h
    obtain ⟨hl₁, happlied'⟩ := Edit.applied_map happlied f hl
    obtain ⟨hl', hrest'⟩ := ih hrest hl₁
    exact ⟨hl', edited_cons_eq_ok_iff.mpr ⟨l₁.map f hl₁, happlied', hrest'⟩⟩

end Layer

end Layers

/-! ### Edits as maps of cells -/

/-- Where a canvas can be cut into tiles an edit is a map of its cells into themselves, the same for pictures of all
    kinds: it succeeds on each of them, and takes every pixel from the cell that is the image of its place. Edits one
    after another succeed exactly if each of them finds tiles, and then they are the composition of their maps, the last
    edit first. They give the same layer whether pixels are exchanged for others before them or after. -/
theorem edits_gather_and_relabel :
    (∀ (e : Edit) (k : Canvas), k.Addressable → e.tileSize ≠ 0 →
      Tile.plan k (.square e.tileSize) ≠ .error .outOfRange →
        (∀ c ∈ k, e.origin k c ∈ k) ∧
        ∀ (α : Type) [Pixel α] (v : View α), v.canvas = k →
          ∃ r, (e.draw v.source).result = .ok r ∧ r.canvas = k ∧ ∀ c ∈ k, r.get? c = v.get? (e.origin k c)) ∧
    ∀ (α : Type) [Pixel α] (l : Layer α) (edits : List Edit),
      ((∃ l', l.edited edits = .ok l') ↔ ∀ e ∈ edits, e.Feasible l.pixels.canvas) ∧
      ∀ l', l.edited edits = .ok l' →
        l'.name = l.name ∧ l'.pixels.canvas = l.pixels.canvas ∧
        (∀ c ∈ l.pixels.canvas, l'.pixels.get? c = l.pixels.get? (Edit.origins edits l.pixels.canvas c)) ∧
        ∀ (β : Type) [Pixel β] (f : α → β) (h : l.pixels.canvas.Storable (Pixel.bytes β)),
          ∃ h', (l.map f h).edited edits = .ok (l'.map f h') := by
  refine ⟨fun e k hk hs hplan => ?_, fun α _ l edits => ⟨Layer.exists_edited_iff, fun l' h => ?_⟩⟩
  · obtain ⟨tiles, htiles⟩ := Tile.exists_plan hs hplan
    refine ⟨fun c hc => e.redrawing.origin_mem htiles hk hc, ?_⟩
    rintro α _ v rfl
    obtain ⟨r, hr, hcopies⟩ := e.redrawing.draw_eq_ok v.source_complete htiles v.source_storable
    rw [e.draw_eq]
    exact ⟨r, hr, hcopies.canvas, fun c hc => e.redrawing.get?_of_copies hcopies hc⟩
  · have hgathers := Layer.gathers_of_edited h
    exact ⟨hgathers.alike.name, hgathers.alike.canvas, hgathers.pixel, fun β _ f hl => Layer.edited_map h f hl⟩

/-- Three edits of a small layer: the first pixel comes from the cell that they lead back to, and what is added to all
    pixels at the start is there at the end. -/
theorem edits_gather_and_relabel_small :
    let l : Layer UInt32 := ⟨"land", ⟨⟨3, 2⟩, #[0, 1, 2, 3, 4, 5], rfl, by decide⟩⟩
    let hammer : Edit := .operation .polarToHammer ⟨2⟩
    let fill : Edit := .operation .hammerTile ⟨1⟩
    let back : Edit := .resample Hammer.projection Equirectangular.projection 64
    ∃ l', l.edited [hammer, fill, back] = .ok l' ∧
      l'.pixels.get? ⟨0, 0⟩ = l.pixels.get? (hammer.origin l.pixels.canvas
        (fill.origin l.pixels.canvas (back.origin l.pixels.canvas ⟨0, 0⟩))) ∧
      ∃ h h', (l.map (· + 7) h).edited [hammer, fill, back] = .ok (l'.map (· + 7) h') := by
  intro l hammer fill back
  obtain ⟨-, hlayers⟩ := edits_gather_and_relabel
  obtain ⟨hsucceeds, houtcome⟩ := hlayers UInt32 l [hammer, fill, back]
  have hfeasible : ∀ e ∈ [hammer, fill, back], e.Feasible l.pixels.canvas := by
    rw [List.forall_mem_cons, List.forall_mem_cons, List.forall_mem_singleton]
    exact ⟨Edit.feasible_of_fits (by decide) (by decide) (by decide) (by decide),
      Edit.feasible_of_fits (by decide) (by decide) (by decide) (by decide),
      Edit.feasible_of_fits (by decide) (by decide) (by decide) (by decide)⟩
  obtain ⟨l', hl'⟩ := hsucceeds.mpr hfeasible
  obtain ⟨-, -, hpixel, hmap⟩ := houtcome l' hl'
  have hfirst := hpixel ⟨0, 0⟩ (by decide)
  simp only [Edit.origins_cons, Edit.origins_nil] at hfirst
  exact ⟨l', hl', hfirst, l.pixels.storable, hmap UInt32 (· + 7) l.pixels.storable⟩

/-- A square picture of so many cells that tiles of one cell find no room: no operation makes anything of it, though its
    pixels are stored. -/
theorem Operation.draw_outOfRange_of_square :
    let blank : Raster UInt32 := .replicate ⟨0x20000000, 0x20000000⟩ (by decide) 0
    blank.canvas.Storable 4 ∧ (∀ c ∈ blank.canvas, blank.get? c = some 0) ∧
      ∀ op : Operation, (op.draw blank.source ⟨1⟩).result = .error .outOfRange := by
  intro blank
  refine ⟨blank.storable, fun c hc => Raster.get?_replicate _ hc 0, fun op => ?_⟩
  rw [op.draw_eq]
  exact op.redrawing.draw_eq_outOfRange blank.storable.1 (by decide) (by decide) fun hroom => absurd hroom.1 (by decide)

end GlobeTexture
