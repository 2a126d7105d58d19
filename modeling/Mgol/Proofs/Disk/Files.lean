import Mathlib.Data.String.Basic
import Mgol.Disk.Basic
import Mgol.Source.Path

/-! # Files read back

What is written to a file is read from it again, and writing it leaves other files alone. Two paths
lead to different names if their last pieces differ, whatever comes before.

* **`pieces_joinPath`** — the path of a file in a directory ends in the name of the file.
* **`Disk.find_put`** — where paths lead after an entry was set.
* **`Disk.write_cases`** — what writing does.
* **`Disk.find_write`, `Disk.find_write_other`** — where paths lead after a file was written.
* **`Disk.readText_of_find`, `Disk.device?_of_find`** — what is read there, or which device it is. -/

namespace Mgol

/-! ## Pieces of a path -/

/-- **The search for slashes**, from the middle of a text. -/
theorem splitOnAux_slash (front middle rest : List Char) (found : List String) :
    String.splitOnAux (String.ofList (front ++ middle ++ rest)) "/" ⟨String.utf8Len front⟩
        ⟨String.utf8Len front + String.utf8Len middle⟩ 0 found =
      found.reverse ++
        (List.splitOnPPrepend (· == '/') rest middle.reverse).map String.ofList := by
  induction rest generalizing front middle found with
  | nil =>
    have hextract := String.extract_of_valid front middle []
    have hend : (String.ofList (front ++ middle ++ [])).rawEndPos ≤
        ⟨String.utf8Len front + String.utf8Len middle⟩ := by
      rw [String.rawEndPos_ofList]
      simp
    unfold String.splitOnAux
    rw [if_pos (by simpa only [String.atEnd_iff] using hend)]
    simp only [hextract]
    simp
  | cons c rest ih =>
    have hget := String.get_of_valid (front ++ middle) (c :: rest)
    have hnext := String.next_of_valid (front ++ middle) c rest
    have hextract := String.extract_of_valid front middle (c :: rest)
    simp only [String.utf8Len_append, List.headD_cons] at hget hnext
    have hmore : ¬ (String.ofList (front ++ middle ++ c :: rest)).rawEndPos ≤
        ⟨String.utf8Len front + String.utf8Len middle⟩ := by
      have hsize : 0 < c.utf8Size := c.utf8Size_pos
      rw [String.rawEndPos_ofList]
      simp [String.Pos.Raw.le_iff]
      omega
    have hsep : String.Pos.Raw.get "/" 0 = '/' := by decide
    unfold String.splitOnAux
    rw [if_neg (by simpa only [String.atEnd_iff] using hmore)]
    simp only [hget, hnext, hsep]
    by_cases hc : c = '/'
    · subst hc
      have hback : (String.Pos.Raw.mk (String.utf8Len front + String.utf8Len middle +
          '/'.utf8Size)).unoffsetBy (String.Pos.Raw.next "/" 0) =
          ⟨String.utf8Len front + String.utf8Len middle⟩ := by rfl
      rw [if_pos (by decide), if_pos (by decide), hback, hextract,
        List.splitOnPPrepend_cons_pos (by rfl)]
      have hrest := ih (front ++ middle ++ ['/']) [] (String.ofList middle :: found)
      simpa [Nat.add_assoc] using hrest
    · rw [if_neg (by simpa using hc), List.splitOnPPrepend_cons_neg (by simpa using hc)]
      have hback : (String.Pos.Raw.mk (String.utf8Len front + String.utf8Len middle)).unoffsetBy
          0 = ⟨String.utf8Len front + String.utf8Len middle⟩ := by rfl
      have hrest := ih front (middle ++ [c]) found
      rw [hback, hnext]
      simpa [Nat.add_assoc] using hrest

/-- The pieces of a path. -/
theorem splitOn_slash (path : String) :
    path.splitOn "/" = (path.toList.splitOnP (· == '/')).map String.ofList := by
  simpa [String.splitOn] using splitOnAux_slash [] [] path.toList []

/-- A name without a slash is one piece. -/
theorem splitOnP_slash_eq_singleton {file : String} (hfile : '/' ∉ file.toList) :
    file.toList.splitOnP (· == '/') = [file.toList] :=
  List.splitOnP_eq_singleton fun c hc => by
    simpa using fun h : c = '/' => hfile (h ▸ hc)

/-- **The path of a file in a directory ends in the name of the file.** -/
theorem pieces_joinPath (dir : String) {file : String} (hfile : '/' ∉ file.toList) :
    ∃ above, (joinPath dir file).splitOn "/" = above ++ [file] := by
  have hpiece := splitOnP_slash_eq_singleton hfile
  have hslash : ∀ (path : String) (above : List Char), path.toList = above ++ '/' :: file.toList →
      ∃ above, path.splitOn "/" = above ++ [file] := by
    intro path above hpath
    refine ⟨(above.splitOnP (· == '/')).map String.ofList, ?_⟩
    rw [splitOn_slash, hpath, List.splitOnP_append_cons _ _ (by rfl), hpiece]
    simp
  unfold joinPath
  split
  · refine ⟨[], ?_⟩
    rw [splitOn_slash, hpiece]
    simp
  · split
    · next hend =>
      have hsuffix : "/".toList <:+ dir.toList := by
        rw [String.endsWith_eq_endsWith_toSlice] at hend
        simpa only [String.copy_toSlice] using String.Slice.endsWith_string_iff.mp hend
      obtain ⟨above, habove⟩ := hsuffix
      refine hslash _ above ?_
      simp [← habove]
    · exact hslash _ dir.toList (by simp)

namespace Disk

variable {d d' : Disk}

/-! ## Entries -/

/-- The entry with a name in a list after one was set. -/
theorem find?_putIn (name other : List String) (entry : DiskEntry)
    (entries : List (List String × DiskEntry)) :
    (putIn name entry entries).find? (fun e => e.1 = other) =
      if other = name then some (name, entry) else entries.find? fun e => e.1 = other := by
  induction entries with
  | nil => by_cases h : other = name <;> simp [putIn, h, eq_comm]
  | cons e entries ih =>
    rw [putIn]
    split
    · next he =>
      by_cases h : other = name
      · simp [h]
      · simp [he, h, Ne.symm h]
    · next he =>
      rw [List.find?_cons, ih, List.find?_cons]
      by_cases h : other = name
      · simp [h, he]
      · simp [h]

/-- **The entry with a name after one was set**, if no disk has one there by itself. -/
theorem get?_put {name : List String} (hname : builtIn? name = none) (entry : DiskEntry) (other : List String) :
    (d.put name entry).get? other = if other = name then some entry else d.get? other := by
  unfold get?
  rw [put, find?_putIn]
  by_cases h : other = name
  · subst h
    simp [hname]
  · simp [h]

/-! ## Where paths lead -/

/-- **A piece that makes a step down.** -/
structure IsStep (piece : String) : Prop where
  not_idle : ¬ (piece = "" ∨ piece = ".")
  not_up : piece ≠ ".."
  short : ¬ longestName < piece.utf8ByteSize

/-- **Where pieces lead from a directory.** -/
inductive Leads (d : Disk) : List String → List String → Place → Prop
  | here (dir : List String) : Leads d dir [] (.found dir .directory)
  | idle {dir rest : List String} {piece : String} {place : Place}
      (hidle : piece = "" ∨ piece = ".") (hrest : Leads d dir rest place) :
      Leads d dir (piece :: rest) place
  | up {dir rest : List String} {place : Place} (hrest : Leads d dir.dropLast rest place) :
      Leads d dir (".." :: rest) place
  | enter {dir rest : List String} {piece : String} {place : Place} (hstep : IsStep piece)
      (hget : d.get? (dir ++ [piece]) = some .directory)
      (hrest : Leads d (dir ++ [piece]) rest place) : Leads d dir (piece :: rest) place
  | found {dir : List String} {piece : String} {entry : DiskEntry} (hstep : IsStep piece)
      (hget : d.get? (dir ++ [piece]) = some entry) (hentry : entry ≠ .directory) :
      Leads d dir [piece] (.found (dir ++ [piece]) entry)
  | missing {dir : List String} {piece : String} (hstep : IsStep piece)
      (hget : d.get? (dir ++ [piece]) = none) : Leads d dir [piece] (.missing (dir ++ [piece]))

/-- Following pieces finds where they lead. -/
theorem follow_iff_leads {dir pieces : List String} {place : Place} :
    d.follow dir pieces = .ok place ↔ Leads d dir pieces place := by
  constructor
  · intro h
    fun_induction follow d dir pieces with
    | case1 dir =>
      obtain rfl := Except.ok.inj h
      exact .here dir
    | case2 dir piece rest hidle ih => exact .idle hidle (ih h)
    | case3 dir rest _ ih => exact .up (ih h)
    | case4 => cases h
    | case5 dir piece rest hidle hup hlong hget ih => exact .enter ⟨hidle, hup, hlong⟩ hget (ih h)
    | case6 dir piece rest hidle hup hlong entry hentry hget hlast =>
      obtain rfl := Except.ok.inj h
      obtain rfl := List.isEmpty_iff.mp hlast
      exact .found ⟨hidle, hup, hlong⟩ hget hentry
    | case7 => cases h
    | case8 dir piece rest hidle hup hlong hget hlast =>
      obtain rfl := Except.ok.inj h
      obtain rfl := List.isEmpty_iff.mp hlast
      exact .missing ⟨hidle, hup, hlong⟩ hget
    | case9 => cases h
  · intro h
    induction h with
    | here dir => rw [follow]
    | idle hidle _ ih => rw [follow, if_pos hidle, ih]
    | up _ ih => rw [follow, if_neg (by decide), if_pos rfl, ih]
    | enter hstep hget _ ih =>
      rw [follow, if_neg hstep.not_idle, if_neg hstep.not_up, if_neg hstep.short, hget]
      exact ih
    | @found dir piece entry hstep hget hentry =>
      rw [follow, if_neg hstep.not_idle, if_neg hstep.not_up, if_neg hstep.short, hget]
      cases entry with
      | directory => exact absurd rfl hentry
      | file content => rfl
      | device kind => rfl
    | missing hstep hget =>
      rw [follow, if_neg hstep.not_idle, if_neg hstep.not_up, if_neg hstep.short, hget]
      rfl

/-- The name that a place has. -/
def Place.name : Place → List String
  | found name _ => name
  | missing name => name

/-- **A path leads to a name that ends in its last piece.** -/
theorem Leads.name_eq {above : List String} {file : String} (hfile : IsStep file)
    {dir : List String} {place : Place} (h : Leads d dir (above ++ [file]) place) :
    ∃ parent, place.name = parent ++ [file] := by
  generalize hpieces : above ++ [file] = pieces at h
  induction h generalizing above with
  | here dir => simp at hpieces
  | idle hidle _ ih =>
    rcases List.append_eq_cons_iff.mp hpieces with ⟨-, hlast⟩ | ⟨above', -, hrest⟩
    · exact absurd ((List.cons.inj hlast).1 ▸ hidle) hfile.not_idle
    · exact ih hrest.symm
  | up _ ih =>
    rcases List.append_eq_cons_iff.mp hpieces with ⟨-, hlast⟩ | ⟨above', -, hrest⟩
    · exact absurd (List.cons.inj hlast).1 hfile.not_up
    · exact ih hrest.symm
  | @enter dir rest piece place _ _ hrest ih =>
    rcases List.append_eq_cons_iff.mp hpieces with ⟨-, hlast⟩ | ⟨above', -, hmore⟩
    · obtain ⟨rfl, rfl⟩ := List.cons.inj hlast
      cases hrest
      exact ⟨dir, rfl⟩
    · exact ih hmore.symm
  | @found dir piece entry _ _ _ =>
    obtain ⟨-, hlast⟩ := List.append_inj' (hpieces.trans (List.nil_append _).symm) rfl
    exact ⟨dir, by rw [hlast]; rfl⟩
  | @missing dir piece _ _ =>
    obtain ⟨-, hlast⟩ := List.append_inj' (hpieces.trans (List.nil_append _).symm) rfl
    exact ⟨dir, by rw [hlast]; rfl⟩

/-- A place after a file was set: nothing is new but what stands under its name. -/
def Place.after (name : List String) (content : ByteArray) : Place → Place
  | found n .directory => found n .directory
  | found n entry => if n = name then found n (.file content) else found n entry
  | missing n => if n = name then found n (.file content) else missing n

/-- After a file was set, another name has what it had. -/
theorem Place.after_of_ne {name n : List String} (hne : n ≠ name) (content : ByteArray)
    (entry : DiskEntry) : (Place.found n entry).after name content = .found n entry := by
  cases entry with
  | directory => rfl
  | file old => exact if_neg hne
  | device kind => exact if_neg hne

/-- **Where pieces lead after a file was set** under a name that was no directory. -/
theorem Leads.put {name : List String} (hname : builtIn? name = none)
    (hfile : d.get? name ≠ some .directory) (content : ByteArray) {dir pieces : List String}
    {place : Place} (h : Leads d dir pieces place) :
    Leads (d.put name (.file content)) dir pieces (place.after name content) := by
  have hget := get?_put (d := d) hname (.file content)
  induction h with
  | here dir => exact .here dir
  | idle hidle _ ih => exact .idle hidle ih
  | up _ ih => exact .up ih
  | @enter dir rest piece place hstep hdir _ ih =>
    refine .enter hstep ?_ ih
    have hne : dir ++ [piece] ≠ name := fun h => hfile (h ▸ hdir)
    rw [hget, if_neg hne, hdir]
  | @found dir piece entry hstep hentry hkind =>
    by_cases heq : dir ++ [piece] = name
    · have hafter : (Place.found (dir ++ [piece]) entry).after name content =
          .found (dir ++ [piece]) (.file content) := by
        cases entry with
        | directory => exact absurd rfl hkind
        | file old => exact if_pos heq
        | device kind => exact if_pos heq
      rw [hafter]
      exact .found hstep (by rw [hget, if_pos heq]) (by simp)
    · rw [Place.after_of_ne heq]
      exact .found hstep (by rw [hget, if_neg heq, hentry]) hkind
  | @missing dir piece hstep hnone =>
    rw [Place.after]
    split
    · next heq => exact .found hstep (by rw [hget, if_pos heq]) (by simp)
    · next hne => exact .missing hstep (by rw [hget, if_neg hne, hnone])

/-- **A name that a file in a directory can have.** -/
structure IsFileName (file : String) : Prop extends IsStep file where
  no_slash : '/' ∉ file.toList

/-- What a place says of the disk. -/
def Place.Holds (d : Disk) : Place → Prop
  | found _ .directory => True
  | found name entry => d.get? name = some entry
  | missing name => d.get? name = none

/-- Where pieces lead, what is said stands. -/
theorem Leads.holds {dir pieces : List String} {place : Place} (h : Leads d dir pieces place) :
    place.Holds d := by
  induction h with
  | here dir => trivial
  | idle _ _ ih => exact ih
  | up _ ih => exact ih
  | enter _ _ _ ih => exact ih
  | @found dir piece entry _ hget hentry =>
    cases entry with
    | directory => trivial
    | file content => exact hget
    | device kind => exact hget
  | missing _ hget => exact hget

/-- **A place for a file**: there is one, or nothing. -/
inductive Place.Free : Place → Prop
  | file (name : List String) (old : ByteArray) : Free (.found name (.file old))
  | missing (name : List String) : Free (.missing name)

/-- What stands under the name of a place for a file. -/
theorem Place.Free.get?_eq {place : Place} (h : place.Free) (hholds : place.Holds d) :
    d.get? place.name = none ∨ ∃ old, d.get? place.name = some (.file old) := by
  cases h with
  | file name old => exact .inr ⟨old, hholds⟩
  | missing name => exact .inl hholds

/-- After a file was set in its place, it stands there. -/
theorem Place.Free.after_eq {place : Place} (h : place.Free) (content : ByteArray) :
    place.after place.name content = .found place.name (.file content) := by
  cases h with
  | file name old => exact if_pos rfl
  | missing name => exact if_pos rfl

/-- No disk has a file by itself. -/
theorem builtIn?_ne_file (name : List String) (content : ByteArray) :
    builtIn? name ≠ some (.file content) := by
  unfold builtIn?
  split
  · simp
  · cases Device.ofName? name <;> simp

/-- Where there is a file or nothing, an entry can be set. -/
theorem builtIn?_eq_none {name : List String}
    (h : d.get? name = none ∨ ∃ content, d.get? name = some (.file content)) :
    builtIn? name = none := by
  cases hbuilt : builtIn? name with
  | none => rfl
  | some entry =>
    simp only [get?, hbuilt] at h
    rcases h with h | ⟨content, h⟩
    · cases h
    · exact absurd (hbuilt.trans h) (builtIn?_ne_file name content)

/-- **A path leads where its pieces lead.** -/
theorem find_iff {path : String} {place : Place} :
    d.find path = .ok place ↔
      malformed? path = none ∧ Leads d (d.base path) (path.splitOn "/") place := by
  rw [← follow_iff_leads, find]
  cases malformed? path with
  | none => simp
  | some e => simp

/-- **The path of a file in a directory leads to a name that ends in that of the file.** -/
theorem name_of_find {dir file : String} (hfile : IsFileName file) {place : Place}
    (h : d.find (joinPath dir file) = .ok place) : ∃ parent, place.name = parent ++ [file] := by
  obtain ⟨-, hleads⟩ := find_iff.mp h
  obtain ⟨above, habove⟩ := pieces_joinPath dir hfile.no_slash
  rw [habove] at hleads
  exact hleads.name_eq hfile.toIsStep

/-- **Where paths lead after a file was set** in a place for one. -/
theorem find_put {path other : String} {free place : Place} (hfree : free.Free)
    (hpath : d.find path = .ok free) (content : ByteArray) (hother : d.find other = .ok place) :
    (d.put free.name (.file content)).find other = .ok (place.after free.name content) := by
  have hget := hfree.get?_eq (find_iff.mp hpath).2.holds
  have hfile : d.get? free.name ≠ some .directory := by
    rcases hget with hget | ⟨old, hget⟩ <;> simp [hget]
  obtain ⟨hformed, hleads⟩ := find_iff.mp hother
  exact find_iff.mpr ⟨hformed, hleads.put (builtIn?_eq_none hget) hfile content⟩

/-- A file name leads to the working directory. -/
theorem find_of_isFileName {file : String} (hfile : IsFileName file)
    (hformed : malformed? file = none) (hrelative : file.startsWith "/" = false) {place : Place}
    (hplace : Leads d d.workingDirectory [file] place) : d.find file = .ok place := by
  refine find_iff.mpr ⟨hformed, ?_⟩
  have hpieces : file.splitOn "/" = [file] := by
    rw [splitOn_slash, splitOnP_slash_eq_singleton hfile.no_slash]
    simp
  rw [hpieces, base, hrelative]
  exact hplace

/-! ## Writing -/

/-- A path that ends in no slash leads to the same place for something new. -/
theorem findForCreation_eq {path : String} (h : path.endsWith "/" = false) :
    d.findForCreation path = d.find path := by
  have hlast : ¬ "/".toList <:+ path.toList := by
    rw [String.endsWith_eq_endsWith_toSlice] at h
    simpa only [String.copy_toSlice] using String.Slice.endsWith_string_eq_false_iff.mp h
  have hbare : withoutEndSlashes path = path := by
    have hdrop : path.toList.reverse.dropWhile (· = '/') = path.toList.reverse := by
      cases hrev : path.toList.reverse with
      | nil => rfl
      | cons c rest =>
        have hc : c ≠ '/' := by
          rintro rfl
          exact hlast ⟨rest.reverse, by simpa using (congrArg List.reverse hrev).symm⟩
        rw [List.dropWhile_cons_of_neg (by simpa using hc)]
    rw [withoutEndSlashes, hdrop, List.reverse_reverse, String.ofList_toList]
  unfold findForCreation
  cases hpath : malformed? path with
  | some e => simp [find, hpath]
  | none =>
    have hne : path ≠ "" := by
      rintro rfl
      cases hpath
    simp [hbare, hne]

/-- **What takes the bytes for a path** stands where the path leads: a file that is there or could
be, or a device. -/
theorem target_cases {path : String} {taker : Target} (h : d.target path = .ok taker) :
    (∃ place old, taker = .file place.name old ∧ place.Free ∧ d.find path = .ok place) ∨
    ∃ name kind, taker = .device kind ∧ d.find path = .ok (.found name (.device kind)) := by
  unfold target at h
  cases hplace : d.findForCreation path with
  | error e => simp [hplace] at h
  | ok place =>
    simp only [hplace] at h
    split at h
    · cases h
    · next hslash =>
      rw [findForCreation_eq (by simpa using hslash)] at hplace
      split at h
      · cases h
      · next name old =>
        exact .inl ⟨.found name (.file old), old, (Except.ok.inj h).symm, .file name old, hplace⟩
      · next name kind => exact .inr ⟨name, kind, (Except.ok.inj h).symm, hplace⟩
      · next name =>
        exact .inl ⟨.missing name, .empty, (Except.ok.inj h).symm, .missing name, hplace⟩

/-- A device leaves the entries as they are. -/
theorem entries_of_send {content : ByteArray} {kind : Device} (h : d.send content kind = .ok d') :
    d'.entries = d.entries ∧ d'.workingDirectory = d.workingDirectory := by
  cases kind with
  | void =>
    obtain rfl := Except.ok.inj h
    exact ⟨rfl, rfl⟩
  | full =>
    rw [send] at h
    split at h
    · obtain rfl := Except.ok.inj h
      exact ⟨rfl, rfl⟩
    · cases h
  | output =>
    obtain rfl := Except.ok.inj h
    exact ⟨rfl, rfl⟩
  | errors =>
    obtain rfl := Except.ok.inj h
    exact ⟨rfl, rfl⟩

/-- **What writing does**: it sets a file in a place for one, or sends to a device. -/
theorem write_cases {path : String} {content : ByteArray} (h : d.write path content = .ok d') :
    (∃ place, place.Free ∧ d.find path = .ok place ∧ d' = d.put place.name (.file content)) ∨
    ∃ name kind, d.find path = .ok (.found name (.device kind)) ∧ d'.entries = d.entries ∧
      d'.workingDirectory = d.workingDirectory := by
  unfold write at h
  cases htarget : d.target path with
  | error e => simp [htarget] at h
  | ok taker =>
    rw [htarget] at h
    rcases target_cases htarget with ⟨place, old, rfl, hfree, hfind⟩ | ⟨name, kind, rfl, hfind⟩
    · exact .inl ⟨place, hfree, hfind, (Except.ok.inj h).symm⟩
    · exact .inr ⟨name, kind, hfind, entries_of_send h⟩

/-- **A file that is not there is made.** -/
theorem write_of_missing {path : String} (hslash : path.endsWith "/" = false) {name : List String}
    (h : d.find path = .ok (.missing name)) (content : ByteArray) :
    d.write path content = .ok (d.put name (.file content)) := by
  simp [write, target, findForCreation_eq hslash, h, hslash]

/-- Where paths lead is decided by the entries and the working directory. -/
theorem find_congr (hentries : d'.entries = d.entries)
    (hbase : d'.workingDirectory = d.workingDirectory) (path : String) :
    d'.find path = d.find path := by
  have hfollow : ∀ dir pieces, d'.follow dir pieces = d.follow dir pieces := by
    intro dir pieces
    induction pieces generalizing dir with
    | nil => rfl
    | cons piece rest ih => simp only [follow, get?, hentries, ih]
  simp only [find, base, hbase, hfollow]

/-- **Where the path of a file leads after it was written.** -/
theorem find_write {path : String} {content : ByteArray} (h : d.write path content = .ok d') :
    ∃ name, d'.find path = .ok (.found name (.file content)) ∨
      ∃ kind, d'.find path = .ok (.found name (.device kind)) := by
  rcases write_cases h with ⟨place, hfree, hfind, rfl⟩ | ⟨name, kind, hfind, hentries, hbase⟩
  · refine ⟨place.name, .inl ?_⟩
    rw [find_put hfree hfind content hfind, hfree.after_eq]
  · exact ⟨name, .inr ⟨kind, (find_congr hentries hbase path).trans hfind⟩⟩

/-- **Where another path leads after a file was written.** -/
theorem find_write_other {path other : String} {content : ByteArray}
    (h : d.write path content = .ok d') {name : List String} {entry : DiskEntry}
    (hother : d.find other = .ok (.found name entry))
    (hne : ∀ place, d.find path = .ok place → place.name ≠ name) :
    d'.find other = .ok (.found name entry) := by
  rcases write_cases h with ⟨place, hfree, hfind, rfl⟩ | ⟨_, kind, hfind, hentries, hbase⟩
  · rw [find_put hfree hfind content hother, Place.after_of_ne (hne place hfind).symm]
  · exact (find_congr hentries hbase other).trans hother

/-- **A text in a file is read back.** -/
theorem readText_of_find {path text : String} {name : List String}
    (h : d.find path = .ok (.found name (.file text.toUTF8))) : d.readText path = .ok text := by
  have hdecode : String.fromUTF8? text.toUTF8 = some text := dif_pos text.isValidUTF8
  simp only [readText, read, h, hdecode]

/-- What was written has no slash at the end of its path. -/
theorem endsWith_of_write {path : String} {content : ByteArray}
    (h : d.write path content = .ok d') : path.endsWith "/" = false := by
  cases hslash : path.endsWith "/" with
  | false => rfl
  | true =>
    unfold write target at h
    cases hplace : d.findForCreation path with
    | error e => simp [hplace] at h
    | ok place => simp [hplace, hslash] at h

/-- No device takes the bytes for a path that leads to a file. -/
theorem device?_eq_none {path : String} (hslash : path.endsWith "/" = false) {name : List String}
    {content : ByteArray} (h : d.find path = .ok (.found name (.file content))) :
    d.device? path = none := by
  simp [device?, target, findForCreation_eq hslash, h, hslash]

/-- A device takes the bytes for a path that leads to it. -/
theorem device?_of_find {path : String} (hslash : path.endsWith "/" = false) {name : List String}
    {kind : Device} (h : d.find path = .ok (.found name (.device kind))) :
    d.device? path = some kind := by
  simp [device?, target, findForCreation_eq hslash, h, hslash]

end Disk

end Mgol
