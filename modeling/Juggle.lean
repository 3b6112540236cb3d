import Juggle.Dy.Verdict
import Juggle.Dy.Fairness
import Juggle.Dy.Quiescence
import Juggle.Dy.Borrow
import Juggle.Dy.Unwinding
import Juggle.Dy.Scripts
import Juggle.Dy.Placement
import Juggle.Dy.Rotation
import Juggle.St.Counts
import Juggle.St.Requests
import Juggle.St.Sessions
import Juggle.St.Storage
import Juggle.St.Dispose
import Juggle.St.Handover
import Juggle.Wakeup
import Juggle.Utils.Unfairness
import Juggle.Utils.Load
import Juggle.Utils.Overflow
import Juggle.Utils.Linearity
import Juggle.Utils.Interrupt
import Juggle.Utils.NarrowKeys
import Juggle.Utils.Retain
import Juggle.Utils.Waker
import Juggle.Dy.Handles
import Juggle.Dy.Removal
import Juggle.Dy.Validity
import Juggle.St.Fairness
import Juggle.St.Progress
import Juggle.St.Threads
import Juggle.Dy.Guards
import Juggle.St.Blocking
