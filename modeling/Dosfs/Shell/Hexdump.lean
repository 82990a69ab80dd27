import Mathlib.Data.List.DropRight
import Dosfs.Drivers.VgaText
import Dosfs.Shell.FileCommands
import Dosfs.Tools.CpuText

/-!
# Dumps

A translation of `cmd_hexdump` of `shell/shell.c`, which prints a file or a part of the
memory in rows of 16 bytes, and a reader of the rows. What is read back from a dump is what
was dumped.
-/

namespace Dosfs

open Foundation

/-! ## The command -/

/-- `%08x: ` -/
def addressFormat : CString := ⟨ascii ['%', '0', '8', 'x', ':', ' '], by decide +kernel⟩

/-- `%02x ` -/
def byteFormat : CString := ⟨ascii ['%', '0', '2', 'x', ' '], by decide +kernel⟩

/-- What the column on the right shows for a byte. -/
def columnByte (ch : UInt8) : UInt8 := if 32 ≤ ch ∧ ch < 127 then ch else 0x2E

/-- A row of at most 16 bytes, which are read a second time for the column. The dump of a file
fills a short row up to the column. -/
def dumpRow (padded : Bool) (addr : UInt32) (row again : List UInt8) (vga : Vga) : Option Vga := do
  let vga ← vgaPrintf vga addressFormat fun _ => ⟨addr, none⟩
  let vga ← row.foldlM (fun vga b => vgaPrintf vga byteFormat fun _ => ⟨b.toUInt32, none⟩) vga
  let fill := if padded then 16 - row.length else 0
  let vga := (List.replicate fill (⟨ascii [' ', ' ', ' '], by decide +kernel⟩ : CString)).foldl
    vgaPuts vga
  let vga := vgaPuts vga ⟨ascii [' ', '|'], by decide +kernel⟩
  let vga := (again.map columnByte).foldl vgaPutchar vga
  return vgaPuts vga ⟨ascii ['|', '\n'], by decide +kernel⟩

/-- The loop over the rows; only the dump of the memory has a base. -/
def dumpRows (padded : Bool) (base : UInt32) (data again : Memory) (len i : Nat) (vga : Vga) :
    Option Vga :=
  if i < len then do
    let count := min 16 (len - i)
    let vga ← dumpRow padded (base + UInt32.ofNat i) (data.loadList i count)
      (again.loadList i count) vga
    dumpRows padded base data again len (i + 16) vga
  else some vga
termination_by len - i

def isHexDigit (c : UInt8) : Bool :=
  (0x30 ≤ c ∧ c ≤ 0x39) ∨ (0x61 ≤ c ∧ c ≤ 0x66) ∨ (0x41 ≤ c ∧ c ≤ 0x46)

/-- The number of bytes of the memory that are dumped. -/
def dumpLength (mlen : Int32) : Int32 :=
  let mlen := if mlen ≤ 0 then 256 else mlen
  if mlen > 4096 then 4096 else mlen

/-- `Memory dump at 0x%x (%d bytes):` -/
def memoryHeader : CString where
  bytes := ascii ['M', 'e', 'm', 'o', 'r', 'y', ' ', 'd', 'u', 'm', 'p', ' ', 'a', 't', ' ', '0',
    'x', '%', 'x', ' ', '(', '%', 'd', ' ', 'b', 'y', 't', 'e', 's', ')', ':', '\n']
  noNul := by decide +kernel

/-- The part of `cmd_hexdump` behind `mem `. Printing changes the video memory and more, so `mem`
is what the reads for the digits find, and `again` what those for the column find. -/
def dumpMemory (mem again : UInt32 → UInt8) (args : List UInt8) (vga : Vga) : Option Vga :=
  let args := skipSpaces args
  let digits := args.takeWhile isHexDigit
  if digits = [] then
    some (vgaPuts vga ⟨ascii ['I', 'n', 'v', 'a', 'l', 'i', 'd', ' ', 'a', 'd', 'd', 'r', 'e',
      's', 's', '\n'], by decide +kernel⟩)
  else do
    let addr := hexLoop digits
    let mlen := dumpLength (atoi (skipSpaces (args.drop digits.length)))
    let vga ← vgaPrintf vga memoryHeader fun k => ⟨[addr, mlen.toUInt32].getD k 0, none⟩
    dumpRows false addr (fun j => mem (addr + UInt32.ofNat j))
      (fun j => again (addr + UInt32.ofNat j)) mlen.toNatClampNeg 0 vga

/-- `Hexdump of %s (%d bytes):` -/
def fileHeader : CString where
  bytes := ascii ['H', 'e', 'x', 'd', 'u', 'm', 'p', ' ', 'o', 'f', ' ', '%', 's', ' ', '(', '%',
    'd', ' ', 'b', 'y', 't', 'e', 's', ')', ':', '\n']
  noNul := by decide +kernel

/-- `File not found or empty: %s` -/
def fileMissing : CString where
  bytes := ascii ['F', 'i', 'l', 'e', ' ', 'n', 'o', 't', ' ', 'f', 'o', 'u', 'n', 'd', ' ', 'o',
    'r', ' ', 'e', 'm', 'p', 't', 'y', ':', ' ', '%', 's', '\n']
  noNul := by decide +kernel

/-- `Usage: hexdump [mem <addr> <len> | <filename>]` -/
def hexdumpUsage : CString where
  bytes := ascii ['U', 's', 'a', 'g', 'e', ':', ' ', 'h', 'e', 'x', 'd', 'u', 'm', 'p', ' ', '[',
    'm', 'e', 'm', ' ', '<', 'a', 'd', 'd', 'r', '>', ' ', '<', 'l', 'e', 'n', '>', ' ', '|', ' ',
    '<', 'f', 'i', 'l', 'e', 'n', 'a', 'm', 'e', '>', ']', '\n']
  noNul := by decide +kernel

def memWord : List UInt8 := ascii ['m', 'e', 'm', ' ']

def cmdHexdump (kmallocFails : Bool) (mem again : UInt32 → UInt8) (args : CString) (t : Tmpfs)
    (vga : Vga) : Option Vga :=
  let name := nameArg args
  if name.bytes = [] then some (vgaPuts vga hexdumpUsage)
  else if memWord.isPrefixOf name.bytes then dumpMemory mem again (name.bytes.drop 4) vga
  else if kmallocFails then
    some (vgaPuts vga (.ofBuffer (ascii ['O', 'u', 't', ' ', 'o', 'f', ' ', 'm', 'e', 'm', 'o', 'r',
      'y', '\n'])))
  else
    let (len, buf) := tmpfsRead name tmpfsDataSize t
    if len < 1 then vgaPrintf vga fileMissing fun _ => ⟨0, some name⟩
    else do
      let vga ← vgaPrintf vga fileHeader fun k => ⟨(Int32.ofInt len).toUInt32,
        if k = 0 then some name else none⟩
      dumpRows true 0 (fun j => buf.getD j 0) (fun j => buf.getD j 0) len.toNat 0 vga

/-! ## The reader -/

/-- The bytes of a row, up to the first blank that stands in the place of a digit. -/
def readPairs : List UInt8 → List UInt8
  | a :: b :: _ :: rest =>
      if a = 0x20 then [] else ((hexDigit a <<< 4) + hexDigit b).toUInt8 :: readPairs rest
  | _ => []

/-- The bytes of all the rows; ten characters are for the address. -/
def readDump (rows : List UInt8) : List UInt8 :=
  (rows.splitOn 0x0A).flatMap fun row => readPairs (row.drop 10)

/-! ## The text of the rows -/

def addressText (addr : UInt32) : List UInt8 :=
  inField (uitoa addr 16) 8 false 0x30 ++ ascii [':', ' ']

def hexPair (b : UInt8) : List UInt8 :=
  [digitByte (UInt32.ofNat (b.toNat / 16)), digitByte (UInt32.ofNat (b.toNat % 16))]

/-- A row without the end of its line. -/
def rowText (padded : Bool) (addr : UInt32) (row again : List UInt8) : List UInt8 :=
  addressText addr ++ (row.flatMap (fun b => hexPair b ++ [0x20]) ++
    (List.replicate (if padded then 3 * (16 - row.length) else 0) 0x20 ++
      (ascii [' ', '|'] ++ (again.map columnByte ++ [0x7C]))))

def rowsText (padded : Bool) (base : UInt32) (data again : Memory) (len i : Nat) : List UInt8 :=
  if i < len then
    rowText padded (base + UInt32.ofNat i) (data.loadList i (min 16 (len - i)))
        (again.loadList i (min 16 (len - i))) ++
      0x0A :: rowsText padded base data again len (i + 16)
  else []
termination_by len - i

/-! ## What is printed -/

/-- The printing succeeds, and prints the text. -/
def Prints (print : Vga → Option Vga) (text : List UInt8) : Prop :=
  ∀ vga, print vga = some (text.foldl vgaPutchar vga)

theorem Prints.bind {print print' : Vga → Option Vga} {text text' : List UInt8}
    (h : Prints print text) (h' : Prints print' text') :
    Prints (fun vga => print vga >>= print') (text ++ text') := by
  intro vga
  dsimp only
  rw [h vga, List.foldl_append]
  exact h' _

theorem prints_foldlM {α : Type} {print : Vga → α → Option Vga} {text : α → List UInt8}
    (h : ∀ a, Prints (fun vga => print vga a) (text a)) (as : List α) :
    Prints (fun vga => as.foldlM print vga) (as.flatMap text) := by
  induction as with
  | nil => exact fun vga => rfl
  | cons a as ih =>
      rw [List.flatMap_cons]
      exact (h a).bind ih

/-- A format that begins with a hexadecimal number in a field filled with zeros. -/
theorem prints_hexField {flags rest : List UInt8} {width : Int32}
    (hafter : afterFlags (flags ++ 0x78 :: rest) = 0x78 :: rest)
    (hflags : flagsOf (flags ++ 0x78 :: rest) = ⟨false, 0x30, width⟩) (hrest : Unflagged rest)
    {fmt : CString} (hfmt : fmt.bytes = 0x25 :: (flags ++ 0x78 :: rest)) (word : UInt32) :
    Prints (fun vga => vgaPrintf vga fmt fun _ => ⟨word, none⟩)
      (inField (uitoa word 16) width false 0x30 ++ expansion (fun _ => ⟨word, none⟩) rest 1) := by
  intro vga
  have hends : ¬ EndsInFlags (0x25 :: (flags ++ 0x78 :: rest)) := by
    rw [endsInFlags_conversion hafter]
    exact hrest.not_endsInFlags
  have hargs : ∀ _ : Nat, (⟨word, none⟩ : VaArg).text.bytes.length < 2 ^ 31 :=
    fun _ => by simp [VaArg.text]
  dsimp only
  rw [vgaPrintf, hfmt, vgaPrintfLoop_eq hends, vgaExpansion_conversion hafter, hflags,
    vgaExpansion_eq hrest hargs]
  rfl

theorem prints_address (addr : UInt32) :
    Prints (fun vga => vgaPrintf vga addressFormat fun _ => ⟨addr, none⟩) (addressText addr) :=
  @prints_hexField [0x30, 0x38] [0x3A, 0x20] 8 (by decide) rfl
    (.plain (by decide) (.plain (by decide) .nil)) addressFormat rfl addr

/-- Every byte takes two digits. -/
theorem inField_hexPair (b : UInt8) : inField (uitoa b.toUInt32 16) 2 false 0x30 = hexPair b := by
  have hall : ∀ n < 256,
      inField (uitoa (UInt8.ofNat n).toUInt32 16) 2 false 0x30 = hexPair (UInt8.ofNat n) := by
    decide +kernel
  have hb := hall b.toNat b.toNat_lt
  rwa [UInt8.ofNat_toNat] at hb

theorem prints_byte (b : UInt8) :
    Prints (fun vga => vgaPrintf vga byteFormat fun _ => ⟨b.toUInt32, none⟩)
      (hexPair b ++ [0x20]) := by
  rw [← inField_hexPair]
  exact @prints_hexField [0x30, 0x32] [0x20] 2 (by decide) rfl (.plain (by decide) .nil)
    byteFormat rfl b.toUInt32

/-- The blanks that fill a row, three at a time. -/
theorem foldl_vgaPuts_blanks {s : CString} (hs : s.bytes = [0x20, 0x20, 0x20]) (count : Nat)
    (vga : Vga) : (List.replicate count s).foldl vgaPuts vga =
      (List.replicate (3 * count) 0x20).foldl vgaPutchar vga := by
  induction count generalizing vga with
  | zero => rfl
  | succ count ih =>
      rw [List.replicate_succ, List.foldl_cons, ih, vgaPuts, hs, Nat.mul_succ, Nat.add_comm,
        List.replicate_add, List.foldl_append]
      rfl

theorem prints_dumpRow (padded : Bool) (addr : UInt32) (row again : List UInt8) :
    Prints (dumpRow padded addr row again) (rowText padded addr row again ++ [0x0A]) := by
  intro vga
  have haddress := prints_address addr vga
  have hbytes := prints_foldlM prints_byte row ((addressText addr).foldl vgaPutchar vga)
  dsimp only at haddress hbytes
  rw [dumpRow, haddress]
  simp only [Option.bind_eq_bind, Option.bind_some]
  rw [hbytes, Option.bind_some, foldl_vgaPuts_blanks rfl, rowText]
  simp only [vgaPuts, List.foldl_append, mul_ite, Nat.mul_zero]
  rfl

theorem prints_dumpRows (padded : Bool) (base : UInt32) (data again : Memory) (len i : Nat) :
    Prints (dumpRows padded base data again len i) (rowsText padded base data again len i) := by
  induction h : len - i using Nat.strong_induction_on generalizing i with
  | _ n ih =>
      intro vga
      rw [dumpRows, rowsText]
      split
      next hlt =>
        have hrest := ih (len - (i + 16)) (by omega) (i + 16) rfl
        rw [← List.singleton_append, ← List.append_assoc]
        exact (prints_dumpRow padded _ _ _).bind hrest vga
      next => rfl

/-! ## What is read back -/

theorem readPairs_row (row : List UInt8) {rest : List UInt8} (hrest : readPairs rest = []) :
    readPairs (row.flatMap (fun b => hexPair b ++ [0x20]) ++ rest) = row := by
  have hall : ∀ n < 256, digitByte (UInt32.ofNat (n / 16)) ≠ 0x20 ∧
      ((hexDigit (digitByte (UInt32.ofNat (n / 16))) <<< 4) +
        hexDigit (digitByte (UInt32.ofNat (n % 16)))).toUInt8 = UInt8.ofNat n := by
    decide +kernel
  induction row with
  | nil => exact hrest
  | cons b row ih =>
      obtain ⟨hne, hvalue⟩ := hall b.toNat b.toNat_lt
      rw [UInt8.ofNat_toNat] at hvalue
      rw [List.flatMap_cons, List.append_assoc, hexPair]
      simp only [List.cons_append, List.nil_append]
      rw [readPairs, if_neg hne, hvalue, ih]

theorem uitoa_hex (addr : UInt32) :
    (uitoa addr 16).length ≤ 8 ∧ ∀ c ∈ uitoa addr 16, c ∈ digitAlphabet.take 16 := by
  have heq : uitoa addr 16 = numeral 16 addr.toNat := uitoa_eq (by decide) addr
  rw [heq]
  exact ⟨numeral_length_le (by decide) (by decide) addr.toNat_lt,
    (numeral_isNumeral (by decide) (by decide) addr.toNat).digits⟩

theorem addressText_length (addr : UInt32) : (addressText addr).length = 10 := by
  have hpad : ∀ n ≤ 8, (if (8 : Int32) > Int32.ofNat n then
      ((8 : Int32) - Int32.ofNat n).toNatClampNeg else 0) = 8 - n := by decide
  have hlength := (uitoa_hex addr).1
  rw [addressText, inField, if_neg Bool.false_ne_true, padding, hpad _ hlength]
  simp only [List.length_append, List.length_replicate]
  change 8 - (uitoa addr 16).length + (uitoa addr 16).length + 2 = 10
  omega

theorem newline_notMem_hexPair (b : UInt8) : (0x0A : UInt8) ∉ hexPair b ++ [0x20] := by
  have hdigit : ∀ d < 16, digitByte (UInt32.ofNat d) ≠ 0x0A := by decide
  have hhigh := hdigit (b.toNat / 16) (Nat.div_lt_of_lt_mul b.toNat_lt)
  have hlow := hdigit (b.toNat % 16) (Nat.mod_lt _ (by decide))
  simp [hexPair, hhigh.symm, hlow.symm]

theorem columnByte_ne_newline (ch : UInt8) : columnByte ch ≠ 0x0A := by
  rw [columnByte]
  split
  next hprintable =>
    rintro rfl
    exact absurd hprintable.1 (by decide)
  next => decide

/-- There is one line for each row. -/
theorem newline_notMem_rowText (padded : Bool) (addr : UInt32) (row again : List UInt8) :
    0x0A ∉ rowText padded addr row again := by
  have hdigit : ∀ c ∈ digitAlphabet.take 16, c ≠ 0x0A := by simp [digitAlphabet]
  have haddress : 0x0A ∉ addressText addr := by
    rw [addressText, inField, if_neg Bool.false_ne_true]
    intro hmem
    rcases List.mem_append.mp hmem with hmem | hmem
    · rcases List.mem_append.mp hmem with hmem | hmem
      · exact absurd (List.eq_of_mem_replicate hmem) (by decide)
      · exact hdigit _ ((uitoa_hex addr).2 _ hmem) rfl
    · exact absurd hmem (by simp [ascii])
  rw [rowText]
  intro hmem
  rcases List.mem_append.mp hmem with hmem | hmem
  · exact haddress hmem
  rcases List.mem_append.mp hmem with hmem | hmem
  · obtain ⟨b, -, hb⟩ := List.mem_flatMap.mp hmem
    exact newline_notMem_hexPair b hb
  rcases List.mem_append.mp hmem with hmem | hmem
  · exact absurd (List.eq_of_mem_replicate hmem) (by decide)
  rcases List.mem_append.mp hmem with hmem | hmem
  · exact absurd hmem (by simp [ascii])
  rcases List.mem_append.mp hmem with hmem | hmem
  · obtain ⟨b, -, hb⟩ := List.mem_map.mp hmem
    exact columnByte_ne_newline b hb
  · exact absurd hmem (by decide)

theorem readPairs_blank (rest : List UInt8) : readPairs (0x20 :: rest) = [] := by
  match rest with
  | [] => rfl
  | [_] => rfl
  | _ :: _ :: _ => rw [readPairs, if_pos rfl]

theorem readPairs_rowText (padded : Bool) (addr : UInt32) (row again : List UInt8) :
    readPairs ((rowText padded addr row again).drop 10) = row := by
  rw [rowText, List.drop_left' (addressText_length addr)]
  refine readPairs_row row ?_
  generalize (if padded then 3 * (16 - row.length) else 0) = fill
  cases fill with
  | zero => exact readPairs_blank _
  | succ fill => exact readPairs_blank _

theorem readDump_rowsText (padded : Bool) (base : UInt32) (data again : Memory) (len i : Nat) :
    readDump (rowsText padded base data again len i) = data.loadList i (len - i) := by
  induction h : len - i using Nat.strong_induction_on generalizing i with
  | _ n ih =>
      rw [rowsText]
      split
      next hlt =>
        have hrest := ih (len - (i + 16)) (by omega) (i + 16) rfl
        rw [readDump] at hrest ⊢
        rw [List.splitOn_append_cons_self_of_not_mem (newline_notMem_rowText padded _ _ _),
          List.flatMap_cons, hrest, readPairs_rowText, h]
        by_cases hfull : 16 ≤ n
        · obtain ⟨more, rfl⟩ := Nat.exists_eq_add_of_le hfull
          rw [Nat.min_eq_left hfull, show len - (i + 16) = more by omega, ← Memory.loadList_add]
        · rw [Nat.min_eq_right (by omega), show len - (i + 16) = 0 by omega]
          exact List.append_nil _
      next hge =>
        obtain rfl : n = 0 := by omega
        rfl

/-! ## Dumps of files -/

/-- The line above the rows of a file. -/
def fileHeaderText (name : CString) (len : Nat) : List UInt8 :=
  ascii ['H', 'e', 'x', 'd', 'u', 'm', 'p', ' ', 'o', 'f', ' '] ++ (name.bytes ++
    (ascii [' ', '('] ++ (numeral 10 len ++
      ascii [' ', 'b', 'y', 't', 'e', 's', ')', ':', '\n'])))

theorem itoa_ofInt {n : Nat} (hn : n < 2 ^ 31) : itoa (Int32.ofInt n) 10 = numeral 10 n := by
  have htoInt : (Int32.ofInt n).toInt = n := Int32.toInt_ofInt_of_le (by omega) (by omega)
  rw [itoa_ten_natAbs, htoInt, if_neg, Int.natAbs_natCast]
  rw [Int32.lt_iff_toInt_lt, htoInt]
  exact not_lt_of_ge (Int.natCast_nonneg n)

/-- A header is words with one conversion behind them, and then the number of bytes. -/
theorem unflagged_header {words : List UInt8} (hwords : ∀ c ∈ words, c ≠ 0x25) {c : UInt8}
    (hminus : c ≠ 0x2D) (hdigit : ¬ (0x30 ≤ c ∧ c ≤ 0x39)) (hp : c ≠ 0x70) :
    Unflagged (words ++ 0x25 :: c :: (ascii [' ', '('] ++
      0x25 :: 0x64 :: ascii [' ', 'b', 'y', 't', 'e', 's', ')', ':', '\n'])) := by
  have hend : ∀ c ∈ ascii [' ', 'b', 'y', 't', 'e', 's', ')', ':', '\n'], c ≠ 0x25 := by
    simp [ascii]
  have hbytes : Unflagged (ascii [' ', 'b', 'y', 't', 'e', 's', ')', ':', '\n']) := by
    simpa only [List.append_nil] using Unflagged.plain_append _ hend .nil
  have hnumber : Unflagged (ascii [' ', '('] ++
      0x25 :: 0x64 :: ascii [' ', 'b', 'y', 't', 'e', 's', ')', ':', '\n']) :=
    .plain_append _ (by simp [ascii]) (.conversion (by decide) (by decide) (by decide) hbytes)
  exact .plain_append _ hwords (.conversion hminus hdigit hp hnumber)

theorem prints_fileHeader {name : CString} (hname : name.bytes.length < 2 ^ 31) {len : Nat}
    (hlen : len < 2 ^ 31) :
    Prints (fun vga => vgaPrintf vga fileHeader fun k => ⟨(Int32.ofInt len).toUInt32,
      if k = 0 then some name else none⟩) (fileHeaderText name len) := by
  have hwords : ∀ c ∈ ascii ['H', 'e', 'x', 'd', 'u', 'm', 'p', ' ', 'o', 'f', ' '], c ≠ 0x25 := by
    simp [ascii]
  have hunflagged : Unflagged fileHeader.bytes :=
    unflagged_header hwords (by decide) (by decide) (by decide)
  intro vga
  dsimp only
  rw [vgaPrintf_unflagged hunflagged, fileHeaderText, ← itoa_ofInt hlen]
  · rfl
  · intro k
    by_cases hk : k = 0
    · simpa [VaArg.text, hk] using hname
    · simp [VaArg.text, hk]

theorem loadList_getD (content : List UInt8) :
    Memory.loadList (fun j => content.getD j 0) 0 content.length = content := by
  refine List.ext_getElem Memory.loadList_length fun j hj hj' => ?_
  simp [Memory.loadList, hj']

section Files

variable {t : Tmpfs} {m : FileMap}

/-- The name under which a file is stored fits into the slot. -/
theorem TmpfsInv.name_length (hinv : TmpfsInv t m) {name : CString} {content : List UInt8}
    (hlookup : m.lookup name = some content) : name.bytes.length ≤ 64 := by
  obtain ⟨i, hentry⟩ := (hinv.represents.lookup name content).1 hlookup
  obtain ⟨-, rfl, -⟩ := entries_eq_some.1 hentry
  refine (List.takeWhile_sublist _).length_le.trans ?_
  rw [Memory.loadList_length]
  exact Nat.le_refl _

/-- The dump of a file that is there and not empty. -/
theorem cmdHexdump_file (hinv : TmpfsInv t m) {args : CString} {content : List UInt8}
    (hlookup : m.lookup (nameArg args) = some content) (hcontent : content ≠ [])
    (hname : (nameArg args).bytes ≠ []) (hmem : memWord.isPrefixOf (nameArg args).bytes = false)
    (mem again : UInt32 → UInt8) :
    Prints (cmdHexdump false mem again args t) (fileHeaderText (nameArg args) content.length ++
      rowsText true 0 (fun j => content.getD j 0) (fun j => content.getD j 0) content.length
        0) := by
  have hlength := hinv.small _ _ hlookup
  have hread : tmpfsRead (nameArg args) tmpfsDataSize t = ((content.length : Int), content) := by
    have hrefines : TmpfsRefines (.read (nameArg args) tmpfsDataSize) t m :=
      tmpfsRead_refines hinv tmpfsDataSize
    obtain ⟨answer, t', m', ht, hm, -⟩ := hrefines
    rw [stepFiles_read hinv.small, hlookup] at hm
    obtain ⟨rfl, rfl⟩ := Prod.mk.inj (Option.some.inj hm)
    exact congrArg Prod.fst (Option.some.inj ht)
  have hpos : ¬ (content.length : Int) < 1 := by
    have := List.length_pos_iff.mpr hcontent
    omega
  have hheader := prints_fileHeader ((hinv.name_length hlookup).trans_lt (by decide))
    (hlength.trans_lt (by decide))
  intro vga
  rw [cmdHexdump]
  dsimp only
  rw [if_neg hname, hmem, if_neg Bool.false_ne_true, if_neg Bool.false_ne_true, hread]
  dsimp only
  rw [if_neg hpos, Int.toNat_natCast]
  exact hheader.bind (prints_dumpRows true 0 _ _ content.length 0) vga

end Files

/-- After every session of file commands, the dump of a file reads back as its contents. -/
theorem hexdump_reads_back {lines : List (List UInt8 × Bool)}
    (hfits : ∀ line ∈ lines, LineFits line) :
    ∃ messages t m, runAll (runLine stepTmpfs) lines tmpfsInit = some (messages, t) ∧
      runAll specLine lines ∅ = some (messages, m) ∧
      ∀ args content, m.lookup (nameArg args) = some content → content ≠ [] →
        (nameArg args).bytes ≠ [] → memWord.isPrefixOf (nameArg args).bytes = false →
        ∃ rows, readDump rows = content ∧ ∀ mem again,
          Prints (cmdHexdump false mem again args t)
            (fileHeaderText (nameArg args) content.length ++ rows) := by
  obtain ⟨messages, t, m, hrun, hspec, hinv⟩ :=
    @runAll_simulates _ _ _ (runLine stepTmpfs) _ specLine TmpfsInv lines
      (fun line hline t m hinv => runLine_refines hinv (hfits line hline)) _ _ tmpfsInit_inv
  refine ⟨messages, t, m, hrun, hspec, fun args content hlookup hcontent hname hmem => ?_⟩
  refine ⟨_, ?_, cmdHexdump_file hinv hlookup hcontent hname hmem⟩
  rw [readDump_rowsText, Nat.sub_zero, loadList_getD]

/-- `write a hi`, and the dump of `a`. -/
theorem hexdump_reads_back_hi :
    ∃ messages t m, runAll (runLine stepTmpfs)
        [(ascii ['w', 'r', 'i', 't', 'e', ' ', 'a', ' ', 'h', 'i'], false)] tmpfsInit =
          some (messages, t) ∧
      runAll specLine [(ascii ['w', 'r', 'i', 't', 'e', ' ', 'a', ' ', 'h', 'i'], false)] ∅ =
        some (messages, m) ∧
      ∀ args content, m.lookup (nameArg args) = some content → content ≠ [] →
        (nameArg args).bytes ≠ [] → memWord.isPrefixOf (nameArg args).bytes = false →
        ∃ rows, readDump rows = content ∧ ∀ mem again,
          Prints (cmdHexdump false mem again args t)
            (fileHeaderText (nameArg args) content.length ++ rows) := by
  refine hexdump_reads_back fun line hline htouch => ?_
  obtain rfl := List.mem_singleton.mp hline
  exact absurd htouch (by decide)

/-! ## Dumps of the memory -/

section Memory

variable (mem again : UInt32 → UInt8) {digits rest : List UInt8} (hdigits : digits ≠ [])
variable (hhex : ∀ c ∈ digits, isHexDigit c = true) (hrest : ∀ c ∈ rest.head?, isHexDigit c = false)

include hdigits hhex hrest

end Memory

end Dosfs
