import Mathlib.Data.List.Nodup
import Mathlib.Data.Set.Card
import Raster.Proofs.Atlas

/-!
# Runs of calls on an atlas

An atlas is used through seven calls (`AtlasCall`). A run starts with an
empty atlas and keeps a log of what was asked and answered (`Atlas.run`).
The log only grows, and it says everything about the atlas: a texture is
held exactly if the log has the addition that returned its identifier and
no call since that drops it (`Kept`), and it is the texture that this
addition makes of its own arguments (`AtlasCall.texture?`).

`Atlas.call_cases` says what a call can do. One step of the invariant
`Atlas.Accounts` follows from it, and the whole run by induction on the
calls (`Atlas.accounts_run`).
-/

namespace Raster

/-- A use of an atlas. -/
inductive AtlasCall (α : Type) where
  | add (kind : TextureKind) (width height : α) (bytes : List UInt8)
  | addPng (file : List UInt8)
  | remove (ref : TextureRef α)
  | clear
  | has (ref : TextureRef α)
  | dimensions (ref : TextureRef α)
  | sample (ref : TextureRef α) (uv : Point α)

inductive AtlasAnswer (α : Type) where
  | id (id : TextureId)
  | flag (value : Bool)
  | size (size : Size α)
  | color (c : Rgba α)
  | done
  | failure (error : AtlasError α)

namespace AtlasAnswer

/-- The answer to a reading that may fail. -/
def ofExcept {α β : Type} (answer : β → AtlasAnswer α) : Except (AtlasError α) β → AtlasAnswer α
  | .ok v => answer v
  | .error e => failure e

end AtlasAnswer

/-- What was asked, with what was answered. -/
abbrev AtlasLog (α : Type) := List (AtlasCall α × AtlasAnswer α)

variable {α : Type}

namespace AtlasCall

/-- After the call there is no texture under the identifier. -/
def Drops (id : TextureId) : AtlasCall α → Prop
  | remove ref => ref = .numbered id
  | clear => True
  | _ => False

/-- The texture that an addition makes of its own arguments, if they make one. -/
def texture? [Scalar α] [Memory] (inflate : List UInt8 → Except Deflate.Error (List UInt8)) :
    AtlasCall α → Option (Texture α)
  | add kind width height bytes => (Texture.ofBytes kind width height bytes).toOption
  | addPng file =>
    (Png.decodeWith inflate file).toOption.bind fun image =>
      (Texture.ofBytes (Atlas.kindOf image.layout) (Scalar.ofNat image.width)
        (Scalar.ofNat image.height) image.data).toOption
  | _ => none

end AtlasCall

namespace AtlasLog

/-- The identifiers that were returned, in order. -/
def returned (log : AtlasLog α) : List TextureId :=
  log.filterMap fun entry =>
    match entry.2 with
    | .id id => some id
    | _ => none

/-- The identifier was returned, and no call since has dropped it. -/
def Live (log : AtlasLog α) (id : TextureId) : Prop :=
  ∃ before c after, log = before ++ (c, .id id) :: after ∧ ∀ entry ∈ after, ¬ entry.1.Drops id

/-- The identifier is live, and the addition that returned it makes the texture. -/
def Kept [Scalar α] [Memory] (inflate : List UInt8 → Except Deflate.Error (List UInt8))
    (log : AtlasLog α) (id : TextureId) (t : Texture α) : Prop :=
  ∃ before c after, log = before ++ (c, .id id) :: after ∧ (∀ entry ∈ after, ¬ entry.1.Drops id)
    ∧ c.texture? inflate = some t

theorem returned_concat (log : AtlasLog α) (c : AtlasCall α) (answer : AtlasAnswer α) :
    returned (log ++ [(c, answer)])
      = returned log ++ match answer with
        | .id id => [id]
        | _ => [] := by
  rw [returned, List.filterMap_append]
  cases answer <;> rfl

theorem returned_concat_of_ne {log : AtlasLog α} {c : AtlasCall α} {answer : AtlasAnswer α}
    (h : ∀ id, answer ≠ .id id) : returned (log ++ [(c, answer)]) = returned log := by
  rw [returned_concat]
  cases answer with
  | id i => exact absurd rfl (h i)
  | _ => exact List.append_nil _

theorem mem_returned {log : AtlasLog α} {id : TextureId} :
    id ∈ returned log ↔ ∃ c, (c, .id id) ∈ log := by
  constructor
  · intro hid
    obtain ⟨⟨c, answer⟩, hentry, hanswer⟩ := List.mem_filterMap.mp hid
    cases answer with
    | id i =>
      cases hanswer
      exact ⟨c, hentry⟩
    | _ => cases hanswer
  · rintro ⟨c, hentry⟩
    exact List.mem_filterMap.mpr ⟨_, hentry, rfl⟩

section
variable [Scalar α] [Memory] {inflate : List UInt8 → Except Deflate.Error (List UInt8)}
  {log : AtlasLog α} {id : TextureId} {t : Texture α}

theorem not_kept_nil : ¬ Kept inflate ([] : AtlasLog α) id t := by
  rintro ⟨before, c, after, hlog, -, -⟩
  cases before <;> cases hlog

/-- A further call keeps a texture by adding it or by not dropping it. -/
theorem kept_concat {c : AtlasCall α} {answer : AtlasAnswer α} :
    Kept inflate (log ++ [(c, answer)]) id t
      ↔ (answer = .id id ∧ c.texture? inflate = some t)
        ∨ (Kept inflate log id t ∧ ¬ c.Drops id) := by
  constructor
  · rintro ⟨before, c', after, hlog, hdrop, htexture⟩
    rcases List.eq_nil_or_concat' after with rfl | ⟨rest, last, rfl⟩
    · obtain ⟨-, hlast⟩ := List.append_inj' hlog rfl
      cases hlast
      exact .inl ⟨rfl, htexture⟩
    · rw [← List.cons_append, ← List.append_assoc] at hlog
      obtain ⟨hinit, hlast⟩ := List.append_inj' hlog rfl
      cases hlast
      refine .inr ⟨⟨before, c', rest, hinit, fun entry hentry => ?_, htexture⟩, ?_⟩
      · exact hdrop entry (List.mem_append_left _ hentry)
      · exact hdrop (c, answer) (List.mem_append_right _ (List.mem_singleton_self _))
  · rintro (⟨rfl, htexture⟩ | ⟨⟨before, c', after, rfl, hdrop, htexture⟩, hkeeps⟩)
    · exact ⟨log, c, [], rfl, fun entry hentry => absurd hentry (List.not_mem_nil), htexture⟩
    · refine ⟨before, c', after ++ [(c, answer)], by rw [List.append_assoc, List.cons_append],
        fun entry hentry => ?_, htexture⟩
      rcases List.mem_append.mp hentry with hold | hnew
      · exact hdrop entry hold
      · obtain rfl := List.mem_singleton.mp hnew
        exact hkeeps

theorem Kept.live (h : Kept inflate log id t) : log.Live id := by
  obtain ⟨before, c, after, hlog, hdrop, -⟩ := h
  exact ⟨before, c, after, hlog, hdrop⟩

omit [Scalar α] [Memory] in
theorem Live.mem_returned (h : log.Live id) : id ∈ returned log := by
  obtain ⟨before, c, after, rfl, -⟩ := h
  exact AtlasLog.mem_returned.mpr ⟨c, by simp⟩

end

end AtlasLog

namespace Atlas

variable [Scalar α] [Memory] (inflate : List UInt8 → Except Deflate.Error (List UInt8))

/-- The answer to a call, and the atlas after it, whether the call fails or not. -/
def call (atlas : Atlas α) : AtlasCall α → AtlasAnswer α × Atlas α
  | .add kind width height bytes =>
    (atlas.perform (.add kind width height bytes)).map (.ofExcept .id) id
  | .addPng file => (atlas.perform (.addPngWith inflate file)).map (.ofExcept .id) id
  | .remove ref => (.flag (atlas.erase ref).1, (atlas.erase ref).2)
  | .clear => (.done, atlas.clear)
  | .has ref => (.flag (atlas.contains ref), atlas)
  | .dimensions ref => (.ofExcept .size (atlas.dimensions ref), atlas)
  | .sample ref uv => (.ofExcept .color (atlas.sample ref uv), atlas)

/-- A run of calls on an empty atlas: its log, and the atlas that it leaves. -/
def run (calls : List (AtlasCall α)) : AtlasLog α × Atlas α :=
  calls.foldl (fun (log, atlas) c =>
    (log ++ [(c, (atlas.call inflate c).1)], (atlas.call inflate c).2)) ([], empty)

theorem run_concat (calls : List (AtlasCall α)) (c : AtlasCall α) :
    run inflate (calls ++ [c])
      = ((run inflate calls).1 ++ [(c, ((run inflate calls).2.call inflate c).1)],
        ((run inflate calls).2.call inflate c).2) := by
  rw [run, List.foldl_append]
  rfl

/-! ## What a call can do -/

variable {inflate}

/-- An addition either adds the texture that its arguments make or, if they make none, leaves the
atlas. -/
theorem addition_cases {atlas : Atlas α} {c : AtlasCall α} {kind : TextureKind} {width height : α}
    {bytes : List UInt8}
    (hcall : atlas.call inflate c
      = (atlas.perform (.add kind width height bytes)).map (.ofExcept .id) id)
    (htexture : c.texture? inflate = (Texture.ofBytes kind width height bytes).toOption) :
    (∃ t, c.texture? inflate = some t
        ∧ atlas.call inflate c = (.id (atlas.insert t).1, (atlas.insert t).2))
      ∨ (c.texture? inflate = none ∧ (∀ id, (atlas.call inflate c).1 ≠ .id id)
        ∧ (atlas.call inflate c).2 = atlas) := by
  rw [hcall, htexture, perform_add]
  cases Texture.ofBytes kind width height bytes with
  | ok t => exact .inl ⟨t, rfl, rfl⟩
  | error e => exact .inr ⟨rfl, fun _ => nofun, rfl⟩

variable (inflate) in
/-- A call adds the texture that it makes, or drops one, or drops all, or leaves the atlas. -/
theorem call_cases (atlas : Atlas α) (c : AtlasCall α) :
    (∃ t, c.texture? inflate = some t ∧ (∀ id, ¬ c.Drops id)
        ∧ atlas.call inflate c = (.id (atlas.insert t).1, (atlas.insert t).2))
      ∨ (∃ ref, c = .remove ref
        ∧ atlas.call inflate c = (.flag (atlas.contains ref), atlas.remove ref))
      ∨ (c = .clear ∧ atlas.call inflate c = (.done, atlas.clear))
      ∨ (c.texture? inflate = none ∧ (∀ id, ¬ c.Drops id)
        ∧ (∀ id, (atlas.call inflate c).1 ≠ .id id) ∧ (atlas.call inflate c).2 = atlas) := by
  cases c with
  | add kind width height bytes =>
    have hadd : atlas.call inflate (.add kind width height bytes)
        = (atlas.perform (.add kind width height bytes)).map (.ofExcept .id) id := rfl
    rcases addition_cases hadd rfl with ⟨t, htexture, hcall⟩ | ⟨htexture, hleft⟩
    · exact .inl ⟨t, htexture, fun _ => id, hcall⟩
    · exact .inr (.inr (.inr ⟨htexture, fun _ => id, hleft⟩))
  | addPng file =>
    cases himage : Png.decodeWith inflate file with
    | ok image =>
      have hadd : atlas.call inflate (.addPng file) = (atlas.perform (.add (kindOf image.layout)
          (Scalar.ofNat image.width) (Scalar.ofNat image.height) image.data)).map
            (.ofExcept .id) id := by
        rw [call, perform_addPngWith, himage]
      have hmade : (AtlasCall.addPng file).texture? inflate
          = (Texture.ofBytes (kindOf image.layout) (Scalar.ofNat image.width : α)
              (Scalar.ofNat image.height) image.data).toOption := by
        rw [AtlasCall.texture?, himage]
        rfl
      rcases addition_cases hadd hmade with ⟨t, htexture, hcall⟩ | ⟨htexture, hleft⟩
      · exact .inl ⟨t, htexture, fun _ => id, hcall⟩
      · exact .inr (.inr (.inr ⟨htexture, fun _ => id, hleft⟩))
    | error e =>
      have hcall : atlas.call inflate (.addPng file) = (.failure (.badImage e), atlas) := by
        rw [call, perform_addPngWith, himage]
        rfl
      rw [hcall]
      exact .inr (.inr (.inr ⟨by rw [AtlasCall.texture?, himage]; rfl, fun _ => id,
        fun _ => nofun, rfl⟩))
  | remove ref => exact .inr (.inl ⟨ref, rfl, rfl⟩)
  | clear => exact .inr (.inr (.inl ⟨rfl, rfl⟩))
  | has ref => exact .inr (.inr (.inr ⟨rfl, fun _ => id, fun _ => nofun, rfl⟩))
  | dimensions ref =>
    refine .inr (.inr (.inr ⟨rfl, fun _ => id, fun id => ?_, rfl⟩))
    rw [call]
    cases atlas.dimensions ref <;> exact nofun
  | sample ref uv =>
    refine .inr (.inr (.inr ⟨rfl, fun _ => id, fun id => ?_, rfl⟩))
    rw [call]
    cases atlas.sample ref uv <;> exact nofun

/-- An identifier is returned exactly by the additions that make a texture. -/
theorem returns_iff (atlas : Atlas α) (c : AtlasCall α) :
    (∃ id, (atlas.call inflate c).1 = .id id) ↔ ∃ t, c.texture? inflate = some t := by
  rcases atlas.call_cases inflate c with
    ⟨t, htexture, -, hcall⟩ | ⟨ref, rfl, hcall⟩ | ⟨rfl, hcall⟩ | ⟨htexture, -, hanswer, -⟩
  · rw [hcall]
    exact ⟨fun _ => ⟨t, htexture⟩, fun _ => ⟨_, rfl⟩⟩
  · exact ⟨nofun, nofun⟩
  · exact ⟨nofun, nofun⟩
  · rw [htexture]
    exact ⟨fun ⟨id, hid⟩ => absurd hid (hanswer id), nofun⟩

/-- A call that fails leaves the atlas as it was. -/
theorem call_of_failure {atlas : Atlas α} {c : AtlasCall α} {e : AtlasError α}
    (h : (atlas.call inflate c).1 = .failure e) : (atlas.call inflate c).2 = atlas := by
  rcases atlas.call_cases inflate c with
    ⟨t, -, -, hcall⟩ | ⟨ref, -, hcall⟩ | ⟨-, hcall⟩ | ⟨-, -, -, hcall⟩
  · rw [hcall] at h
    cases h
  · rw [hcall] at h
    cases h
  · rw [hcall] at h
    cases h
  · exact hcall

omit [Scalar α] [Memory] in
/-- Dropping what is not held changes nothing. -/
theorem remove_of_not_contains {atlas : Atlas α} {ref : TextureRef α}
    (h : atlas.contains ref = false) : atlas.remove ref = atlas := by
  cases ref with
  | numbered id =>
    have habsent : atlas.textures.lookup id = none := by
      rwa [contains, Option.isSome_eq_false_iff, Option.isNone_iff_eq_none] at h
    rw [List.lookup_eq_none_iff] at habsent
    have hall : atlas.textures.filter (·.1 ≠ id) = atlas.textures := by
      refine List.filter_eq_self.mpr fun entry hentry => decide_eq_true ?_
      exact (bne_iff_ne.mp (habsent entry hentry)).symm
    rw [remove, hall]
  | stray kind number => rfl

/-! ## What a log says about the atlas -/

/-- The log accounts for the atlas: what it holds, and which identifiers are still to come. -/
structure Accounts (inflate : List UInt8 → Except Deflate.Error (List UInt8)) (log : AtlasLog α)
    (atlas : Atlas α) : Prop where
  made : ∀ c id, (c, .id id) ∈ log → ∃ t, c.texture? inflate = some t ∧ t.kind = id.kind
  increasing : log.returned.Pairwise fun i j => i.kind = j.kind → i.index < j.index
  below : ∀ id ∈ log.returned, id.index < atlas.nextIndex id.kind
  nodup : (atlas.textures.map Prod.fst).Nodup
  mem_iff : ∀ id t, (id, t) ∈ atlas.textures ↔ log.Kept inflate id t

namespace Accounts

theorem start : Accounts inflate ([] : AtlasLog α) empty where
  made c id hentry := absurd hentry (List.not_mem_nil)
  increasing := List.Pairwise.nil
  below id hid := absurd hid (List.not_mem_nil)
  nodup := List.nodup_nil
  mem_iff id t := by
    constructor
    · intro hentry
      exact absurd hentry (List.not_mem_nil)
    · intro hkept
      exact absurd hkept AtlasLog.not_kept_nil

section
variable {log : AtlasLog α} {atlas : Atlas α} (h : Accounts inflate log atlas)
include h

theorem not_mem_next (kind : TextureKind) (t : Texture α) :
    ((⟨kind, atlas.nextIndex kind⟩ : TextureId), t) ∉ atlas.textures := by
  intro hentry
  exact absurd (h.below _ ((h.mem_iff _ t).mp hentry).live.mem_returned) (Int.lt_irrefl _)

/-- A call that makes a texture returns an identifier that is new, and the texture is held. -/
theorem add {c : AtlasCall α} {t : Texture α} (htexture : c.texture? inflate = some t)
    (hkeeps : ∀ id, ¬ c.Drops id) :
    Accounts inflate (log ++ [(c, .id (atlas.insert t).1)]) (atlas.insert t).2 where
  made c' id hentry := by
    rcases List.mem_append.mp hentry with hold | hnew
    · exact h.made c' id hold
    · cases List.mem_singleton.mp hnew
      exact ⟨t, htexture, rfl⟩
  increasing := by
    rw [AtlasLog.returned_concat, List.pairwise_append]
    refine ⟨h.increasing, List.pairwise_singleton _ _, fun i hi j hj hkind => ?_⟩
    obtain rfl := List.mem_singleton.mp hj
    have hbelow := h.below i hi
    rw [hkind] at hbelow
    exact hbelow
  below id hid := by
    rw [AtlasLog.returned_concat] at hid
    rw [nextIndex_insert]
    rcases List.mem_append.mp hid with hold | hnew
    · have hbelow := h.below id hold
      split <;> omega
    · obtain rfl := List.mem_singleton.mp hnew
      rw [if_pos (show (atlas.insert t).1.kind = t.kind from rfl)]
      exact Int.lt_succ _
  nodup := by
    show (List.map Prod.fst (atlas.textures ++ [((atlas.insert t).1, t)])).Nodup
    rw [List.map_append, List.nodup_append']
    refine ⟨h.nodup, List.nodup_singleton _, fun id hold hnew => ?_⟩
    obtain rfl := List.mem_singleton.mp hnew
    obtain ⟨⟨id, t'⟩, hentry, rfl⟩ := List.mem_map.mp hold
    exact h.not_mem_next t.kind t' hentry
  mem_iff id t' := by
    show (id, t') ∈ atlas.textures ++ [((atlas.insert t).1, t)] ↔ _
    rw [List.mem_append, List.mem_singleton, AtlasLog.kept_concat, h.mem_iff, htexture]
    constructor
    · rintro (hold | hnew)
      · exact .inr ⟨hold, hkeeps id⟩
      · cases hnew
        exact .inl ⟨rfl, rfl⟩
    · rintro (⟨hid, ht⟩ | ⟨hold, -⟩)
      · cases hid
        cases ht
        exact .inr rfl
      · exact .inl hold

/-- A call that returns no identifier holds on to what it does not drop. -/
theorem keep {c : AtlasCall α} {answer : AtlasAnswer α} {next : Atlas α}
    (hanswer : ∀ id, answer ≠ .id id) (hindex : ∀ kind, next.nextIndex kind = atlas.nextIndex kind)
    (hsublist : next.textures.Sublist atlas.textures)
    (hmem : ∀ id t, (id, t) ∈ next.textures ↔ (id, t) ∈ atlas.textures ∧ ¬ c.Drops id) :
    Accounts inflate (log ++ [(c, answer)]) next where
  made c' id hentry := by
    rcases List.mem_append.mp hentry with hold | hnew
    · exact h.made c' id hold
    · cases List.mem_singleton.mp hnew
      exact absurd rfl (hanswer id)
  increasing := by
    rw [AtlasLog.returned_concat_of_ne hanswer]
    exact h.increasing
  below id hid := by
    rw [AtlasLog.returned_concat_of_ne hanswer] at hid
    rw [hindex]
    exact h.below id hid
  nodup := h.nodup.sublist (hsublist.map _)
  mem_iff id t := by
    rw [hmem, h.mem_iff, AtlasLog.kept_concat]
    constructor
    · exact .inr
    · rintro (⟨hid, -⟩ | hold)
      · exact absurd hid (hanswer id)
      · exact hold

/-- One call. -/
theorem call (c : AtlasCall α) :
    Accounts inflate (log ++ [(c, (atlas.call inflate c).1)]) (atlas.call inflate c).2 := by
  rcases atlas.call_cases inflate c with
    ⟨t, htexture, hkeeps, hcall⟩ | ⟨ref, rfl, hcall⟩ | ⟨rfl, hcall⟩ | ⟨-, hkeeps, hanswer, hcall⟩
  · rw [hcall]
    exact h.add htexture hkeeps
  · rw [hcall]
    cases ref with
    | numbered gone =>
      refine h.keep (fun _ => nofun) (fun kind => by cases kind <;> rfl) List.filter_sublist
        fun id t => ?_
      rw [remove, List.mem_filter, decide_eq_true_eq]
      refine and_congr_right fun _ => not_congr ?_
      exact ⟨fun heq => congrArg TextureRef.numbered heq.symm, fun heq => by cases heq; rfl⟩
    | stray kind number =>
      refine h.keep (fun _ => nofun) (fun _ => rfl) (List.Sublist.refl _) fun id t => ?_
      exact ⟨fun hentry => ⟨hentry, nofun⟩, And.left⟩
  · rw [hcall]
    refine h.keep (fun _ => nofun) (fun kind => by cases kind <;> rfl) (List.nil_sublist _)
      fun id t => ?_
    exact ⟨fun hentry => absurd hentry (List.not_mem_nil), fun hentry => absurd trivial hentry.2⟩
  · rw [hcall]
    exact h.keep hanswer (fun _ => rfl) (List.Sublist.refl _) fun id t =>
      ⟨fun hentry => ⟨hentry, hkeeps id⟩, And.left⟩

/-- What is held under an identifier is found under it. -/
theorem find?_of_kept {id : TextureId} {t : Texture α} (hkept : log.Kept inflate id t) :
    atlas.find? (.numbered id) = some t := by
  obtain ⟨before, after, hsplit⟩ := List.append_of_mem ((h.mem_iff id t).mpr hkept)
  have hnodup := h.nodup
  rw [hsplit, List.map_append, List.map_cons, List.nodup_append'] at hnodup
  refine List.lookup_eq_some_iff.mpr ⟨before, after, hsplit, fun entry hentry => ?_⟩
  have hother := hnodup.2.2 (List.mem_map_of_mem hentry)
  rw [bne_iff_ne]
  rintro rfl
  exact hother (List.mem_cons_self ..)

theorem exists_kept {id : TextureId} (hlive : log.Live id) : ∃ t, log.Kept inflate id t := by
  obtain ⟨before, c, after, rfl, hdrop⟩ := hlive
  obtain ⟨t, htexture, -⟩ := h.made c id (by simp)
  exact ⟨t, before, c, after, rfl, hdrop, htexture⟩

/-- A reference finds a texture exactly if it is a live identifier. -/
theorem contains_iff (ref : TextureRef α) :
    atlas.contains ref = true ↔ ∃ id, ref = .numbered id ∧ log.Live id := by
  constructor
  · intro hfound
    obtain ⟨t, ht⟩ := Option.isSome_iff_exists.mp hfound
    cases ref with
    | numbered id =>
      obtain ⟨before, after, hsplit, -⟩ := List.lookup_eq_some_iff.mp ht
      have hentry : (id, t) ∈ atlas.textures := by simp [hsplit]
      exact ⟨id, rfl, ((h.mem_iff id t).mp hentry).live⟩
    | stray kind number => cases ht
  · rintro ⟨id, rfl, hlive⟩
    obtain ⟨t, hkept⟩ := h.exists_kept hlive
    rw [contains, h.find?_of_kept hkept]
    rfl

theorem size_eq : (atlas.size : ℕ∞) = {id | log.Live id}.encard := by
  have hlive : {id | log.Live id} = ((atlas.textures.map Prod.fst).toFinset : Set TextureId) := by
    ext id
    rw [Finset.mem_coe, List.mem_toFinset, List.mem_map]
    constructor
    · intro hlive
      obtain ⟨t, hkept⟩ := h.exists_kept hlive
      exact ⟨(id, t), (h.mem_iff id t).mpr hkept, rfl⟩
    · rintro ⟨⟨id, t⟩, hentry, rfl⟩
      exact ((h.mem_iff id t).mp hentry).live
  rw [hlive, Set.encard_coe_eq_coe_finsetCard, List.toFinset_card_of_nodup h.nodup,
    List.length_map, size]

theorem nodup_returned : log.returned.Nodup :=
  h.increasing.imp fun hlt heq => by
    rw [heq] at hlt
    exact absurd (hlt rfl) (Int.lt_irrefl _)

end

end Accounts

variable (inflate) in
theorem accounts_run (calls : List (AtlasCall α)) :
    Accounts inflate (run inflate calls).1 (run inflate calls).2 := by
  induction calls using List.reverseRecOn with
  | nil => exact Accounts.start
  | append_singleton calls c ih =>
    rw [run_concat]
    exact ih.call c

omit [Scalar α] [Memory] in
theorem get_eq_error {atlas : Atlas α} {ref : TextureRef α} (h : ¬ atlas.contains ref = true) :
    atlas.get ref = .error (.unknownTexture ref) := by
  have habsent : atlas.find? ref = none := by
    rwa [contains, Bool.not_eq_true, Option.isSome_eq_false_iff, Option.isNone_iff_eq_none] at h
  rw [get, habsent]

/-! ## The store behind the calls -/

/-- The log of a run seen as a store to which additions are appended, and an atlas that agrees
with it. -/
structure Refines (inflate : List UInt8 → Except Deflate.Error (List UInt8)) (log : AtlasLog α)
    (atlas : Atlas α) : Prop where
  /-- Each kind numbers upwards. -/
  increasing : log.returned.Pairwise fun i j => i.kind = j.kind → i.index < j.index
  /-- No identifier comes twice. -/
  distinct : log.returned.Nodup
  contains_iff : ∀ ref, atlas.contains ref = true ↔ ∃ id, ref = .numbered id ∧ log.Live id
  size_eq : (atlas.size : ℕ∞) = {id | log.Live id}.encard
  /-- A live identifier gives the texture that the addition made of its own arguments. -/
  reads : ∀ before c id after, log = before ++ (c, .id id) :: after →
    (∀ entry ∈ after, ¬ entry.1.Drops id) →
    ∃ t, c.texture? inflate = some t ∧ t.kind = id.kind
      ∧ atlas.dimensions (.numbered id) = .ok t.dimensions
      ∧ ∀ uv, atlas.sample (.numbered id) uv = .ok (t.sample uv)
  /-- Any other reference is refused. -/
  refuses : ∀ ref, (∀ id, ref = .numbered id → ¬ log.Live id) →
    atlas.dimensions ref = .error (.unknownTexture ref)
      ∧ ∀ uv, atlas.sample ref uv = .error (.unknownTexture ref)
  /-- The next call returns an identifier exactly if it makes a texture. -/
  returns_iff : ∀ c, (∃ id, (atlas.call inflate c).1 = .id id) ↔ ∃ t, c.texture? inflate = some t
  /-- The next call, if it fails, leaves textures and counters alone. -/
  unchanged_of_failure : ∀ c e, (atlas.call inflate c).1 = .failure e →
    (atlas.call inflate c).2 = atlas
  /-- So does the removal of what is not there. -/
  unchanged_of_absent : ∀ ref, (atlas.call inflate (.remove ref)).1 = .flag false →
    (atlas.call inflate (.remove ref)).2 = atlas

variable (inflate) in
/-- Whatever is called, in whatever order, the atlas agrees with the log. -/
theorem run_refines (calls : List (AtlasCall α)) :
    Refines inflate (run inflate calls).1 (run inflate calls).2 := by
  have haccounts := accounts_run inflate calls
  generalize (run inflate calls).1 = log at haccounts ⊢
  generalize (run inflate calls).2 = atlas at haccounts ⊢
  refine ⟨haccounts.increasing, haccounts.nodup_returned, haccounts.contains_iff,
    haccounts.size_eq, ?reads, ?refuses, atlas.returns_iff, fun c e => call_of_failure, ?absent⟩
  case reads =>
    intro before c id after hlog hdrop
    obtain ⟨t, htexture, hkind⟩ := haccounts.made c id (by simp [hlog])
    have hfound := haccounts.find?_of_kept ⟨before, c, after, hlog, hdrop, htexture⟩
    refine ⟨t, htexture, hkind, ?_, fun uv => ?_⟩
    · rw [dimensions, get, hfound]
      rfl
    · rw [sample, get, hfound]
      rfl
  case refuses =>
    intro ref hdead
    have hget : atlas.get ref = .error (.unknownTexture ref) := by
      refine get_eq_error fun hcontains => ?_
      obtain ⟨id, hid, hlive⟩ := (haccounts.contains_iff ref).mp hcontains
      exact hdead id hid hlive
    refine ⟨?_, fun uv => ?_⟩
    · rw [dimensions, hget]
      rfl
    · rw [sample, hget]
      rfl
  case absent =>
    intro ref habsent
    exact remove_of_not_contains (AtlasAnswer.flag.inj habsent)

end Atlas

end Raster
