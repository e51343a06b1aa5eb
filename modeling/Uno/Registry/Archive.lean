import Uno.Core.Text
import Uno.Lib.SplitDouble
import Mathlib.Data.List.DropRight
import Mathlib.Data.List.Nodup

/-!
# Names of archives

A package is named after the UVN and the cell or particle it is for, joined by `__`; the configuration of a
particle for a cell is named after the three of them. A name may hold the separator, or a slash. The archive of a
cell is read back as that cell exactly when the two names are `Plain`; the archives of two cells always differ; and
the configurations of two pairs of a particle and a cell differ unless one pair of names overlaps the other
(`archive_names_iff`).
-/

namespace Uno

/-! ### Admitted names -/

/-- `Versioned.RESERVED_KEYWORDS`. -/
def reservedKeywords : List Text :=
  ["registry", "agent", "uvn", "cell", "particle", "user", "network", "lan", "vpn", "port", "server", "address",
    "owner"].map String.toList

/-- `prepare_name`; `lower` is `str.lower`. -/
def prepareName (lower : Text → Text) (val : Text) : Result Text :=
  if val = [] then .error (.value "invalid name")
  else if lower val ∈ reservedKeywords then .error (.runtime ("'" ++ String.ofList val ++ "' is a reserved keyword"))
  else .ok val

/-- A row of `cells` or `particles`. -/
structure NamedRow where
  id : ℕ
  name : Text
  excluded : Bool
  deriving DecidableEq

/-- The cells, or the particles, of a UVN. -/
structure NamedRows (lower : Text → Text) where
  rows : List NamedRow
  names_nodup : (rows.map NamedRow.name).Nodup
  admitted : ∀ r ∈ rows, prepareName lower r.name = .ok r.name

/-- `uvn.cells.values()`, or `uvn.particles.values()`. -/
def NamedRows.active {lower : Text → Text} (t : NamedRows lower) : List NamedRow := t.rows.filter (!·.excluded)

structure NamedUvn (lower : Text → Text) where
  name : Text
  admitted : prepareName lower name = .ok name
  cells : NamedRows lower
  particles : NamedRows lower

theorem NamedRows.eq_of_name_eq {lower : Text → Text} {t : NamedRows lower} {r r' : NamedRow} (hr : r ∈ t.rows)
    (hr' : r' ∈ t.rows) (hname : r.name = r'.name) : r = r' :=
  List.inj_on_of_nodup_map t.names_nodup hr hr' hname

@[simp] theorem NamedRows.mem_active {lower : Text → Text} {t : NamedRows lower} {r : NamedRow} :
    r ∈ t.active ↔ r ∈ t.rows ∧ r.excluded = false := by
  simp [NamedRows.active]

/-! ### Packager -/

namespace Packager
variable {lower : Text → Text}

/-- `CELL_PACKAGE_EXT`. -/
def cellPackageExt : Text := ".uvn-agent".toList

/-- `PARTICLE_PACKAGE_EXT`. -/
def particlePackageExt : Text := ".zip".toList

/-- `f"{uvn_name}__{name}"`. -/
def joinNames (uvnName name : Text) : Text := uvnName ++ '_' :: '_' :: name

/-- `given or name`. -/
def nameOr (given : Option Text) (name : Text) : Text :=
  match given with
  | none | some [] => name
  | some (c :: rest) => c :: rest

def cellArchiveFile (uvn : NamedUvn lower) (cell : NamedRow) (cellName uvnName : Option Text) (basename : Bool) :
    Text :=
  joinNames (nameOr uvnName uvn.name) (nameOr cellName cell.name) ++ if basename then [] else cellPackageExt

def particleArchiveFile (uvn : NamedUvn lower) (particle : NamedRow) (basename : Bool) : Text :=
  joinNames uvn.name particle.name ++ if basename then [] else particlePackageExt

def particleCellFile (uvn : NamedUvn lower) (particle cell : NamedRow) (ext : Option Text) : Text :=
  joinNames uvn.name (joinNames particle.name cell.name) ++ ext.getD []

/-- `file.split("/")[-1]`. -/
def lastPiece (file : Text) : Text := file.rtakeWhile (· ≠ '/')

/-- What `parse_cell_archive_file` and `parse_particle_archive_file` do, for an extension and the rows among which
the name is looked up. -/
def parseArchiveFile (ext : Text) (rows : List NamedRow) (uvnName file : Text) : Result NamedRow :=
  let file := lastPiece file
  match splitDouble '_' (file.take (file.length - ext.length)) with
  | [name, rowName] =>
    if uvnName ≠ name then .error (.value "file from a different uvn")
    else match rows.find? (·.name = rowName) with
      | some row => .ok row
      | none => .error .stopIteration
  | pieces =>
    .error (.value (if pieces.length < 2 then "not enough values to unpack (expected 2, got 1)"
      else "too many values to unpack (expected 2)"))

def parseCellArchiveFile (file : Text) (uvn : NamedUvn lower) : Result NamedRow :=
  parseArchiveFile cellPackageExt uvn.cells.active uvn.name file

def parseParticleArchiveFile (file : Text) (uvn : NamedUvn lower) : Result NamedRow :=
  parseArchiveFile particlePackageExt uvn.particles.active uvn.name file

/-! ### Reading names back -/

theorem lastPiece_append {ext : Text} (file : Text) (hext : '/' ∉ ext) :
    lastPiece (file ++ ext) = lastPiece file ++ ext := by
  have hreverse : ∀ c ∈ ext.reverse, decide (c ≠ '/') = true := by
    intro c hc
    rw [decide_eq_true_eq]
    rintro rfl
    exact hext (List.mem_reverse.mp hc)
  rw [lastPiece, lastPiece, List.rtakeWhile, List.rtakeWhile, List.reverse_append,
    List.takeWhile_append_of_pos hreverse, List.reverse_append, List.reverse_reverse]

theorem lastPiece_eq_iff {file y : Text} :
    lastPiece file = y ↔ '/' ∉ y ∧ (file = y ∨ ∃ d, file = d ++ '/' :: y) := by
  constructor
  · rintro rfl
    refine ⟨fun h => absurd (List.mem_rtakeWhile_imp h) (by simp), ?_⟩
    have hcut : file.rdropWhile (· ≠ '/') ++ lastPiece file = file := List.rdropWhile_append_rtakeWhile
    have hlast : ∀ h, ¬decide ((file.rdropWhile (· ≠ '/')).getLast h ≠ '/') = true :=
      fun h => List.rdropWhile_last_not _ _ h
    generalize file.rdropWhile (· ≠ '/') = start at hcut hlast
    rcases List.eq_nil_or_concat start with rfl | ⟨d, c, rfl⟩
    · exact .inl hcut.symm
    · have hc : c = '/' := by simpa using hlast (by simp)
      rw [hc, List.concat_eq_append, List.append_assoc, List.singleton_append] at hcut
      exact .inr ⟨d, hcut.symm⟩
  · rintro ⟨hy, rfl | ⟨d, rfl⟩⟩
    · rw [lastPiece, List.rtakeWhile_eq_self_iff]
      intro c hc
      rw [decide_eq_true_eq]
      rintro rfl
      exact hy hc
    · have hd : lastPiece (d ++ ['/']) = [] := List.rtakeWhile_concat_neg _ _ _ (by simp)
      rw [List.append_cons, lastPiece_append _ hy, hd, List.nil_append]

theorem parseArchiveFile_eq_ok_iff {ext base uvnName : Text} {rows : List NamedRow} {row : NamedRow}
    (hext : '/' ∉ ext) (hrows : (rows.map NamedRow.name).Nodup) :
    parseArchiveFile ext rows uvnName (base ++ ext) = .ok row ↔
      row ∈ rows ∧ splitDouble '_' (lastPiece base) = [uvnName, row.name] := by
  have hfile : (lastPiece (base ++ ext)).take ((lastPiece (base ++ ext)).length - ext.length) = lastPiece base := by
    rw [lastPiece_append _ hext, List.length_append, Nat.add_sub_cancel, List.take_left]
  simp only [parseArchiveFile, hfile]
  split
  case h_1 name rowName hpieces =>
    rw [hpieces, List.cons.injEq, List.cons.injEq]
    split
    · next hne =>
      exact iff_of_false (by simp) fun h => hne h.2.1.symm
    · next heq =>
      rw [not_not] at heq
      constructor
      · intro h
        split at h
        · next found hfound =>
          cases h
          have hname := List.find?_some hfound
          rw [decide_eq_true_eq] at hname
          exact ⟨List.mem_of_find?_eq_some hfound, heq.symm, hname.symm, rfl⟩
        · cases h
      · rintro ⟨hrow, -, hname, -⟩
        have hsome : (rows.find? (·.name = rowName)).isSome :=
          List.find?_isSome.mpr ⟨row, hrow, decide_eq_true hname.symm⟩
        obtain ⟨found, hfound⟩ := Option.isSome_iff_exists.mp hsome
        have hfoundName := List.find?_some hfound
        rw [decide_eq_true_eq, hname] at hfoundName
        have hrowEq := List.inj_on_of_nodup_map hrows (List.mem_of_find?_eq_some hfound) hrow hfoundName
        rw [hfound, hrowEq]
  case h_2 hpieces =>
    exact iff_of_false (by simp) fun h => hpieces _ _ h.2

/-- Two names that are read back together: neither holds a slash, and the only `__` is the one between them. -/
structure Plain (uvnName name : Text) : Prop where
  no_slash : '/' ∉ joinNames uvnName name
  uvnName_single : ¬HasDouble '_' (uvnName ++ ['_'])
  name_single : ¬HasDouble '_' name

/-- The archive of `name` in the UVN `otherName` reads as that of `row` in the UVN `uvnName`: the part after the
last slash is the archive of `row`, or the UVN's name takes a leading `_` away from `row`. -/
def PassesFor (otherName name uvnName row : Text) : Prop :=
  (∃ d, name = d ++ '/' :: joinNames uvnName row) ∨
    name = row ∧ (∃ d, otherName = d ++ '/' :: uvnName) ∨
    row = '_' :: name ∧ (otherName = uvnName ++ ['_'] ∨ ∃ d, otherName = d ++ '/' :: (uvnName ++ ['_']))

theorem lastPiece_joinNames {uvnName name : Text} :
    lastPiece (joinNames uvnName name) = joinNames uvnName name ↔ '/' ∉ joinNames uvnName name := by
  rw [lastPiece_eq_iff]
  exact and_iff_left (.inl rfl)

theorem joinNames_eq_of_plain {otherName name uvnName row : Text} (h : Plain uvnName row) :
    joinNames otherName name = joinNames uvnName row ↔
      otherName = uvnName ∧ name = row ∨ otherName = uvnName ++ ['_'] ∧ row = '_' :: name := by
  rw [joinNames, joinNames, append_double_inj]
  have huvn : ¬Overlaps '_' otherName name uvnName row := by
    rintro (⟨rfl, -⟩ | ⟨m, rfl, -⟩)
    · exact h.uvnName_single (hasDouble_iff.mpr ⟨otherName, [], by simp⟩)
    · exact h.uvnName_single (hasDouble_iff.mpr ⟨otherName, m ++ ['_'], by simp⟩)
  have hrow : Overlaps '_' uvnName row otherName name ↔ otherName = uvnName ++ ['_'] ∧ row = '_' :: name := by
    refine or_iff_left ?_
    rintro ⟨m, -, rfl⟩
    exact h.name_single (hasDouble_iff.mpr ⟨m, name, rfl⟩)
  rw [hrow]
  simp only [huvn, false_or]

theorem joinNames_eq_append_slash {otherName name y : Text} :
    (∃ d, joinNames otherName name = d ++ '/' :: y) ↔
      (∃ d, name = d ++ '/' :: y) ∨ ∃ d w, otherName = d ++ '/' :: w ∧ y = joinNames w name := by
  constructor
  · rintro ⟨d, hd⟩
    obtain ⟨m, rfl, hm⟩ | ⟨m, rfl, hm⟩ := List.append_eq_append_iff.mp hd
    · rcases m with _ | ⟨a, _ | ⟨b, m⟩⟩
      · simp at hm
      · simp at hm
      · simp only [List.cons_append, List.cons.injEq] at hm
        exact .inl ⟨m, hm.2.2⟩
    · cases m with
      | nil => simp at hm
      | cons a m =>
        simp only [List.cons_append, List.cons.injEq] at hm
        exact .inr ⟨d, m, by rw [hm.1], hm.2⟩
  · rintro (⟨d, rfl⟩ | ⟨d, w, rfl, rfl⟩)
    · exact ⟨joinNames otherName d, by simp [joinNames]⟩
    · exact ⟨d, by simp [joinNames]⟩

theorem lastPiece_joinNames_eq_iff {otherName name uvnName row : Text} (h : Plain uvnName row)
    (hother : otherName ≠ uvnName) :
    lastPiece (joinNames otherName name) = joinNames uvnName row ↔ PassesFor otherName name uvnName row := by
  have hwhole : joinNames otherName name = joinNames uvnName row ↔
      row = '_' :: name ∧ otherName = uvnName ++ ['_'] := by
    rw [joinNames_eq_of_plain h, or_iff_right fun hsame => hother hsame.1, and_comm]
  have hcut : (∃ d w, otherName = d ++ '/' :: w ∧ joinNames uvnName row = joinNames w name) ↔
      name = row ∧ (∃ d, otherName = d ++ '/' :: uvnName) ∨
        row = '_' :: name ∧ ∃ d, otherName = d ++ '/' :: (uvnName ++ ['_']) := by
    constructor
    · rintro ⟨d, w, rfl, hw⟩
      obtain ⟨rfl, hname⟩ | ⟨rfl, hname⟩ := (joinNames_eq_of_plain h).mp hw.symm
      · exact .inl ⟨hname, d, rfl⟩
      · exact .inr ⟨hname, d, rfl⟩
    · rintro (⟨rfl, d, rfl⟩ | ⟨rfl, d, rfl⟩)
      · exact ⟨d, uvnName, rfl, rfl⟩
      · exact ⟨d, uvnName ++ ['_'], rfl, by simp [joinNames]⟩
  rw [lastPiece_eq_iff, and_iff_right h.no_slash, joinNames_eq_append_slash, hwhole, hcut, PassesFor, and_or_left]
  exact or_left_comm.trans (or_congr_right or_left_comm)

/-! ### Archives of a UVN -/

theorem parseArchiveFile_joinNames {ext uvnName otherName name : Text} {t : NamedRows lower} {row : NamedRow}
    (hext : '/' ∉ ext) :
    parseArchiveFile ext t.active uvnName (joinNames otherName name ++ ext) = .ok row ↔
      row ∈ t.active ∧ lastPiece (joinNames otherName name) = joinNames uvnName row.name ∧
        Plain uvnName row.name := by
  have hactive : (t.active.map NamedRow.name).Nodup := t.names_nodup.sublist (List.filter_sublist.map _)
  rw [parseArchiveFile_eq_ok_iff hext hactive, splitDouble_eq_pair_iff]
  refine and_congr_right fun _ => and_congr_right fun hlast => ⟨fun h => ⟨?_, h.1, h.2⟩, fun h => ⟨h.2, h.3⟩⟩
  exact (lastPiece_eq_iff.mp hlast).1

theorem parseArchiveFile_own {ext uvnName : Text} {t : NamedRows lower} {row : NamedRow} (hext : '/' ∉ ext)
    (hrow : row ∈ t.rows) :
    parseArchiveFile ext t.active uvnName (joinNames uvnName row.name ++ ext) = .ok row ↔
      row.excluded = false ∧ Plain uvnName row.name := by
  rw [parseArchiveFile_joinNames hext, NamedRows.mem_active, lastPiece_joinNames]
  constructor
  · rintro ⟨hactive, -, hplain⟩
    exact ⟨hactive.2, hplain⟩
  · rintro ⟨hincluded, hplain⟩
    exact ⟨⟨hrow, hincluded⟩, hplain.no_slash, hplain⟩

/-- A name that another UVN generated is rejected, unless it passes for that of a row. -/
theorem parseArchiveFile_other {ext uvnName otherName name : Text} {t : NamedRows lower} (hext : '/' ∉ ext)
    (hother : otherName ≠ uvnName) :
    (∃ e, parseArchiveFile ext t.active uvnName (joinNames otherName name ++ ext) = .error e) ↔
      ∀ row ∈ t.active, Plain uvnName row.name → ¬PassesFor otherName name uvnName row.name := by
  have hok : (∃ e, parseArchiveFile ext t.active uvnName (joinNames otherName name ++ ext) = .error e) ↔
      ∀ row, parseArchiveFile ext t.active uvnName (joinNames otherName name ++ ext) ≠ .ok row := by
    cases parseArchiveFile ext t.active uvnName (joinNames otherName name ++ ext) with
    | ok row => simp
    | error e => simp
  rw [hok]
  refine forall_congr' fun row => ?_
  rw [ne_eq, parseArchiveFile_joinNames hext, not_and]
  refine forall_congr' fun _ => ?_
  rw [and_comm, not_and]
  exact forall_congr' fun hplain => not_congr (lastPiece_joinNames_eq_iff hplain hother)

theorem joinNames_append_inj {uvnName ext name name' : Text} :
    joinNames uvnName name ++ ext = joinNames uvnName name' ++ ext ↔ name = name' := by
  simp [joinNames]

theorem particleCellFile_eq_iff {uvn : NamedUvn lower} {p c p' c' : NamedRow} {ext : Option Text} :
    particleCellFile uvn p c ext = particleCellFile uvn p' c' ext ↔
      p.name = p'.name ∧ c.name = c'.name ∨ Overlaps '_' p.name c.name p'.name c'.name ∨
        Overlaps '_' p'.name c'.name p.name c.name := by
  rw [particleCellFile, particleCellFile, joinNames_append_inj]
  exact append_double_inj

end Packager

open Packager

/-- The names of archives and configurations are decodable up to the names that hold a separator: which of its own
names a UVN reads back, which names of another UVN it rejects, and which configurations share a name. -/
theorem archive_names_iff {lower : Text → Text} (uvn : NamedUvn lower) :
    (∀ cell ∈ uvn.cells.rows,
      parseCellArchiveFile (cellArchiveFile uvn cell none none false) uvn = .ok cell ↔
        cell.excluded = false ∧ Plain uvn.name cell.name) ∧
    (∀ particle ∈ uvn.particles.rows,
      parseParticleArchiveFile (particleArchiveFile uvn particle false) uvn = .ok particle ↔
        particle.excluded = false ∧ Plain uvn.name particle.name) ∧
    (∀ other : NamedUvn lower, other.name ≠ uvn.name →
      (∀ cell ∈ other.cells.rows,
        (∃ e, parseCellArchiveFile (cellArchiveFile other cell none none false) uvn = .error e) ↔
          ∀ c ∈ uvn.cells.active, Plain uvn.name c.name → ¬PassesFor other.name cell.name uvn.name c.name) ∧
      ∀ particle ∈ other.particles.rows,
        (∃ e, parseParticleArchiveFile (particleArchiveFile other particle false) uvn = .error e) ↔
          ∀ p ∈ uvn.particles.active, Plain uvn.name p.name →
            ¬PassesFor other.name particle.name uvn.name p.name) ∧
    (∀ c ∈ uvn.cells.rows, ∀ c' ∈ uvn.cells.rows, c ≠ c' → ∀ basename,
      cellArchiveFile uvn c none none basename ≠ cellArchiveFile uvn c' none none basename) ∧
    (∀ p ∈ uvn.particles.rows, ∀ p' ∈ uvn.particles.rows, p ≠ p' → ∀ basename,
      particleArchiveFile uvn p basename ≠ particleArchiveFile uvn p' basename) ∧
    ∀ p ∈ uvn.particles.rows, ∀ c ∈ uvn.cells.rows, ∀ p' ∈ uvn.particles.rows, ∀ c' ∈ uvn.cells.rows,
      (p, c) ≠ (p', c') → ∀ ext,
        (particleCellFile uvn p c ext ≠ particleCellFile uvn p' c' ext ↔
          ¬Overlaps '_' p.name c.name p'.name c'.name ∧ ¬Overlaps '_' p'.name c'.name p.name c.name) := by
  have hcell : '/' ∉ cellPackageExt := by decide
  have hparticle : '/' ∉ particlePackageExt := by decide
  refine ⟨fun cell hmem => parseArchiveFile_own hcell hmem, fun particle hmem => parseArchiveFile_own hparticle hmem,
    fun other hother => ⟨fun cell _ => parseArchiveFile_other hcell hother,
      fun particle _ => parseArchiveFile_other hparticle hother⟩, ?_, ?_, ?_⟩
  · intro c hc c' hc' hne basename heq
    exact hne (NamedRows.eq_of_name_eq hc hc' (joinNames_append_inj.mp heq))
  · intro p hp p' hp' hne basename heq
    exact hne (NamedRows.eq_of_name_eq hp hp' (joinNames_append_inj.mp heq))
  · intro p hp c hc p' hp' c' hc' hne ext
    have hnames : ¬(p.name = p'.name ∧ c.name = c'.name) := by
      rintro ⟨hpname, hcname⟩
      rw [NamedRows.eq_of_name_eq hp hp' hpname, NamedRows.eq_of_name_eq hc hc' hcname] at hne
      exact hne rfl
    rw [ne_eq, particleCellFile_eq_iff, or_iff_right hnames, not_or]

/-- A UVN `net` with one cell. -/
def oneCellUvn (cell : NamedRow) (h : prepareName (List.map Char.toLower) cell.name = .ok cell.name) :
    NamedUvn (List.map Char.toLower) where
  name := "net".toList
  admitted := by decide
  cells := ⟨[cell], List.nodup_singleton _, fun r hr => List.mem_singleton.mp hr ▸ h⟩
  particles := ⟨[], List.nodup_nil, fun r hr => absurd hr List.not_mem_nil⟩

/-- The archive of a cell `a__b` is not read back. -/
theorem archive_names_fail :
    ∃ uvn : NamedUvn (List.map Char.toLower), ∃ cell ∈ uvn.cells.active,
      parseCellArchiveFile (cellArchiveFile uvn cell none none false) uvn =
        .error (.value "too many values to unpack (expected 2)") :=
  ⟨oneCellUvn ⟨1, "a__b".toList, false⟩ (by decide), ⟨1, "a__b".toList, false⟩, by decide, by decide⟩

end Uno
