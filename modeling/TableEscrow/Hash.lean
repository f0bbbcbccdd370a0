/-!
# SHA-2

Digests of bytes: 256 bits to name a configuration, 384 bits to recognise a migration script. The
constants are the first bits after the point of the square and cube roots of the first primes.
-/

namespace TableEscrow.Hash

/-! ## Constants -/

/-- The largest number whose `k`-th power is at most `n`, among those of `bits` bits. -/
def root (k n bits : Nat) : Nat :=
  (List.range bits).foldl (fun r i =>
    let candidate := r + 1 <<< (bits - 1 - i)
    if (List.replicate k candidate).foldl (· * ·) 1 ≤ n then candidate else r) 0

def primes (count : Nat) : List Nat :=
  ((List.range 410).filter fun n => 2 ≤ n && (List.range n).all fun d => d < 2 || n % d != 0).take count

/-- The first 64 bits after the point of the `k`-th root of `p`. -/
def rootFraction (k p : Nat) : UInt64 := .ofNat (root k (p <<< (64 * k)) 70)

def squareRoots : Array UInt64 := ((primes 16).map (rootFraction 2)).toArray

def cubeRoots : Array UInt64 := ((primes 80).map (rootFraction 3)).toArray

/-! ## Padding -/

/-- The `count` bytes of a number, the highest first. -/
def bigEndian (count n : Nat) : List UInt8 :=
  (List.range count).map fun i => .ofNat (n >>> (8 * (count - 1 - i)))

/-- The message with its end marked and its length in bits, in whole blocks. -/
def padded (block lengthBytes : Nat) (message : List UInt8) : List UInt8 :=
  let used := message.length + 1 + lengthBytes
  let zeros := (block - used % block) % block
  message ++ 0x80 :: List.replicate zeros 0 ++ bigEndian lengthBytes (8 * message.length)

/-- The number some bytes write, the highest first. -/
def ofBigEndian (bytes : List UInt8) : Nat := bytes.foldl (fun n b => n * 256 + b.toNat) 0

/-- The pieces of `size` elements; what does not fill one is left out. -/
def pieces {α : Type} (size : Nat) (count : Nat) (xs : List α) : List (List α) :=
  match count with
  | 0 => []
  | count + 1 => xs.take size :: pieces size count (xs.drop size)

def blocksOf {α : Type} (size : Nat) (xs : List α) : List (List α) := pieces size (xs.length / size) xs

/-! ## Compression -/

/-- The eight words of a running digest. -/
structure State (ω : Type) where
  a : ω
  b : ω
  c : ω
  d : ω
  e : ω
  f : ω
  g : ω
  h : ω

/-- What the two word sizes differ in. -/
structure Family (ω : Type) where
  add : ω → ω → ω
  xor : ω → ω → ω
  and : ω → ω → ω
  not : ω → ω
  /-- Mixes of the first and the fifth word, and of the words of the schedule. -/
  mixA : ω → ω
  mixE : ω → ω
  early : ω → ω
  late : ω → ω
  zero : ω
  rounds : Array ω

namespace Family

variable {ω : Type}

/-- The schedule of a block: its sixteen words, and as many more as there are rounds. -/
def schedule (F : Family ω) (words : List ω) : Array ω :=
  (List.range (F.rounds.size - 16)).foldl (fun w i =>
    let get (j : Nat) : ω := w.getD j F.zero
    w.push (F.add (F.add (F.late (get (i + 14))) (get (i + 9))) (F.add (F.early (get (i + 1))) (get i))))
    words.toArray

def round (F : Family ω) (s : State ω) (k w : ω) : State ω :=
  let choice := F.xor (F.and s.e s.f) (F.and (F.not s.e) s.g)
  let majority := F.xor (F.xor (F.and s.a s.b) (F.and s.a s.c)) (F.and s.b s.c)
  let t := F.add (F.add (F.add s.h (F.mixE s.e)) (F.add choice k)) w
  ⟨F.add t (F.add (F.mixA s.a) majority), s.a, s.b, s.c, F.add s.d t, s.e, s.f, s.g⟩

def compress (F : Family ω) (s : State ω) (words : List ω) : State ω :=
  let w := F.schedule words
  let r := (List.range F.rounds.size).foldl
    (fun r i => F.round r (F.rounds.getD i F.zero) (w.getD i F.zero)) s
  ⟨F.add s.a r.a, F.add s.b r.b, F.add s.c r.c, F.add s.d r.d, F.add s.e r.e, F.add s.f r.f,
    F.add s.g r.g, F.add s.h r.h⟩

def words (F : Family ω) (s : State ω) (blocks : List (List ω)) : List ω :=
  let r := blocks.foldl F.compress s
  [r.a, r.b, r.c, r.d, r.e, r.f, r.g, r.h]

end Family

/-! ## The two digests -/

def rotate32 (x : UInt32) (n : UInt32) : UInt32 := (x >>> n) ||| (x <<< (32 - n))

def rotate64 (x : UInt64) (n : UInt64) : UInt64 := (x >>> n) ||| (x <<< (64 - n))

def top32 (x : UInt64) : UInt32 := (x >>> 32).toUInt32

def family256 : Family UInt32 where
  add := (· + ·)
  xor := (· ^^^ ·)
  and := (· &&& ·)
  not := (~~~ ·)
  mixA x := rotate32 x 2 ^^^ rotate32 x 13 ^^^ rotate32 x 22
  mixE x := rotate32 x 6 ^^^ rotate32 x 11 ^^^ rotate32 x 25
  early x := rotate32 x 7 ^^^ rotate32 x 18 ^^^ (x >>> 3)
  late x := rotate32 x 17 ^^^ rotate32 x 19 ^^^ (x >>> 10)
  zero := 0
  rounds := (cubeRoots.take 64).map top32

def family384 : Family UInt64 where
  add := (· + ·)
  xor := (· ^^^ ·)
  and := (· &&& ·)
  not := (~~~ ·)
  mixA x := rotate64 x 28 ^^^ rotate64 x 34 ^^^ rotate64 x 39
  mixE x := rotate64 x 14 ^^^ rotate64 x 18 ^^^ rotate64 x 41
  early x := rotate64 x 1 ^^^ rotate64 x 8 ^^^ (x >>> 7)
  late x := rotate64 x 19 ^^^ rotate64 x 61 ^^^ (x >>> 6)
  zero := 0
  rounds := cubeRoots

/-- A state whose words are the roots of eight primes in a row. -/
def initial {ω : Type} (first : Nat) (word : UInt64 → ω) : State ω :=
  let nth (i : Nat) : ω := word (squareRoots.getD (first + i) 0)
  ⟨nth 0, nth 1, nth 2, nth 3, nth 4, nth 5, nth 6, nth 7⟩

def sha256 (message : List UInt8) : List UInt8 :=
  let blocks := (blocksOf 64 (padded 64 8 message)).map fun block =>
    (blocksOf 4 block).map fun bytes => UInt32.ofNat (ofBigEndian bytes)
  (family256.words (initial 0 top32) blocks).flatMap fun w => bigEndian 4 w.toNat

def sha384 (message : List UInt8) : List UInt8 :=
  let blocks := (blocksOf 128 (padded 128 16 message)).map fun block =>
    (blocksOf 8 block).map fun bytes => UInt64.ofNat (ofBigEndian bytes)
  ((family384.words (initial 8 id) blocks).take 6).flatMap fun w => bigEndian 8 w.toNat

end TableEscrow.Hash
