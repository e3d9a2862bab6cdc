import GlobeTexture.Proofs.Planning
import GlobeTexture.Proofs.Reporting
import GlobeTexture.Proofs.Resampling
import GlobeTexture.Proofs.Seamless

/-! # Redrawings

There are two ways to draw a raster from a source, resampling and filling, and each operation is one of them. They
share all but the route: a plan, room for the result, one pass, and notes for the log around it. -/

namespace GlobeTexture

/-- A way to draw a raster from the pixels of a source. -/
inductive Redrawing where
  | resample (source target : Projection)
  | seamless (fold? : Fold)

/-- What an operation does to its source. -/
def Operation.redrawing : Operation → Redrawing
  | hammerTile => .seamless Hammer.fold?
  | polarToHammer => .resample Equirectangular.projection Hammer.projection
  | polarToMercator => .resample Equirectangular.projection Mercator.projection

namespace Redrawing

variable {α : Type} [Pixel α]

/-- The raster that is drawn, with tiles of side `s`. -/
def draw (m : Redrawing) (src : Source α) (s : Nat) : Traced (Raster α) :=
  match m with
  | resample source target => GlobeTexture.resample src source target s
  | seamless fold? => GlobeTexture.seamless fold? src s

/-- How a tile can be treated. -/
def Mode : Redrawing → Type
  | resample _ _ => Unit
  | seamless _ => Bool

/-- The cells that a pass reads for those of its tiles. -/
def route : (m : Redrawing) → Canvas → Route m.Mode
  | resample source target, k => Resample.route source target k
  | seamless fold?, k => Seamless.route fold? k

/-- The notes before a pass over `n` tiles. -/
def opening : Redrawing → Canvas → (n : Nat) → List Note
  | resample _ _, k, n => [.resampling k n]
  | seamless _, _, _ => []

/-- The notes after a pass over `n` tiles, which treated them in certain ways if it came to its end. -/
def closing : (m : Redrawing) → Canvas → (n : Nat) → Except Failure (List m.Mode) → List Note
  | resample _ _, _, _, _ => []
  | seamless _, k, n, .ok modes => [.filled k n (List.count true (modes : List Bool))]
  | seamless _, _, _, .error _ => []

/-- The cell that the pixel of a cell is read from. -/
def address? (m : Redrawing) (k : Canvas) (s : Nat) : Cell → Option Cell :=
  (m.route k).at? k (.square s)

theorem exists_address? (m : Redrawing) {k : Canvas} {s : Nat} {tiles : List Tile}
    (hplan : Tile.plan k (.square s) = .ok tiles) (hk : k.Addressable) {c : Cell} (hc : c ∈ k) :
    ∃ d ∈ k, m.address? k s c = some d := by
  cases m with
  | resample source target =>
    obtain ⟨d, hd, hnear⟩ := Canvas.exists_nearest? hk hc (Resample.position source target k c)
    exact ⟨d, hd, (congrFun (Resample.at?_route k (.square s)) c).trans hnear⟩
  | seamless fold? => exact Seamless.exists_at? fold? hplan hk hc

section Drawing
variable (m : Redrawing) {src : Source α} {s : Nat} {tiles : List Tile}

theorem draw_of_plan_error {e : Failure} (h : Tile.plan src.canvas (.square s) = .error e) :
    m.draw src s = ⟨[], .error e⟩ := by
  cases m with
  | resample source target => simp [draw, GlobeTexture.resample, h]
  | seamless fold? => simp [draw, GlobeTexture.seamless, h]

theorem draw_of_not_storable (hplan : Tile.plan src.canvas (.square s) = .ok tiles)
    (hk : ¬src.canvas.Storable (Pixel.bytes α)) :
    m.draw src s = ⟨(m.opening src.canvas tiles.length).map .note, .error .outOfRange⟩ := by
  cases m with
  | resample source target => exact resample_of_not_storable hplan hk
  | seamless fold? => exact seamless_of_not_storable hplan hk

/-- With a plan and room for its result a redrawing is one pass, but for notes before and after it. -/
theorem draw_of_plan (hplan : Tile.plan src.canvas (.square s) = .ok tiles)
    (hk : src.canvas.Storable (Pixel.bytes α)) :
    m.draw src s =
      ⟨(m.opening src.canvas tiles.length).map .note ++ (gather src tiles (m.route src.canvas)).events ++
          (m.closing src.canvas tiles.length ((gather src tiles (m.route src.canvas)).result.map Gathered.modes)).map
            .note,
        (gather src tiles (m.route src.canvas)).result.map fun g =>
          (Raster.replicate src.canvas hk default).paint g.pixels⟩ := by
  cases m with
  | resample source target =>
    refine (resample_of_plan hplan hk).trans ?_
    rw [closing, List.map_nil, List.append_nil]
    rfl
  | seamless fold? =>
    refine (seamless_of_plan hplan hk).trans ?_
    cases hg : (gather src tiles (Seamless.route fold? src.canvas)).result with
    | ok g =>
      have hmodes : (gather src tiles ((seamless fold?).route src.canvas)).result = .ok g := hg
      rw [hmodes]
      rfl
    | error e =>
      have hmodes : (gather src tiles ((seamless fold?).route src.canvas)).result = .error e := hg
      rw [hmodes]
      rfl

/-- A redrawing ends before it has a plan, or without room for its result, or it is a pass. -/
theorem draw_cases (src : Source α) (s : Nat) :
    (∃ e, Tile.plan src.canvas (.square s) = .error e ∧ m.draw src s = ⟨[], .error e⟩) ∨
    (∃ tiles, Tile.plan src.canvas (.square s) = .ok tiles ∧ ¬src.canvas.Storable (Pixel.bytes α) ∧
      m.draw src s = ⟨(m.opening src.canvas tiles.length).map .note, .error .outOfRange⟩) ∨
    ∃ tiles, Tile.plan src.canvas (.square s) = .ok tiles ∧ ∃ hk : src.canvas.Storable (Pixel.bytes α),
      m.draw src s =
        ⟨(m.opening src.canvas tiles.length).map .note ++ (gather src tiles (m.route src.canvas)).events ++
            (m.closing src.canvas tiles.length
              ((gather src tiles (m.route src.canvas)).result.map Gathered.modes)).map .note,
          (gather src tiles (m.route src.canvas)).result.map fun g =>
            (Raster.replicate src.canvas hk default).paint g.pixels⟩ := by
  cases hplan : Tile.plan src.canvas (.square s) with
  | error e => exact Or.inl ⟨e, rfl, m.draw_of_plan_error hplan⟩
  | ok tiles =>
    by_cases hk : src.canvas.Storable (Pixel.bytes α)
    · exact Or.inr (Or.inr ⟨tiles, rfl, hk, m.draw_of_plan hplan hk⟩)
    · exact Or.inr (Or.inl ⟨tiles, rfl, hk, m.draw_of_not_storable hplan hk⟩)

theorem draw_draws (hplan : Tile.plan src.canvas (.square s) = .ok tiles)
    (hk : src.canvas.Storable (Pixel.bytes α)) : Draws (m.draw src s).result src (m.address? src.canvas s) := by
  rw [m.draw_of_plan hplan hk]
  refine gather_draws hplan (fun c hc => ?_) hk default
  obtain ⟨d, -, hd⟩ := m.exists_address? hplan hk.1 hc
  exact ⟨d, hd⟩

/-- A redrawing reads only at the addresses of cells of the canvas. -/
theorem draw_reads {d : Cell} (hd : d ∈ Event.reads (m.draw src s).events) :
    ∃ tiles, Tile.plan src.canvas (.square s) = .ok tiles ∧ src.canvas.Storable (Pixel.bytes α) ∧
      ∃ c ∈ src.canvas, m.address? src.canvas s c = some d := by
  rcases m.draw_cases src s with ⟨e, -, heq⟩ | ⟨tiles, -, -, heq⟩ | ⟨tiles, hplan, hk, heq⟩
  · rw [heq] at hd
    cases hd
  · rw [heq, Event.reads_map_note] at hd
    cases hd
  · rw [heq, Event.reads_append, Event.reads_append, Event.reads_map_note, Event.reads_map_note, List.append_nil,
      List.nil_append] at hd
    exact ⟨tiles, hplan, hk, gather_reads_at hplan hd⟩

theorem draw_reads_mem {d : Cell} (hd : d ∈ Event.reads (m.draw src s).events) : d ∈ src.canvas := by
  obtain ⟨tiles, hplan, hk, c, hc, haddress⟩ := m.draw_reads hd
  obtain ⟨e, he, haddress'⟩ := m.exists_address? hplan hk.1 hc
  obtain rfl : e = d := Option.some.inj (haddress'.symm.trans haddress)
  exact he

theorem draw_drawn (src : Source α) (s : Nat) : Drawn (m.draw src s) src s := by
  cases m with
  | resample source target => exact resample_drawn src source target s
  | seamless fold? => exact seamless_drawn fold? src s

end Drawing

end Redrawing

theorem Operation.draw_eq {α : Type} [Pixel α] (op : Operation) (src : Source α) (options : Options) :
    op.draw src options = op.redrawing.draw src options.tileSize := by
  cases op <;> rfl

end GlobeTexture
