import ChildLearning.QuestionHeard
import ChildLearning.WordsQuiz
import ChildLearning.QuizSafety
import ChildLearning.Relaunch
import ChildLearning.Snapshots
import ChildLearning.LoginAfterSignUp
import ChildLearning.Crossing
import ChildLearning.Browsing
import ChildLearning.WordsLoading
import ChildLearning.QuizRounds
import ChildLearning.LettersQuiz
import ChildLearning.RightAnswers
import ChildLearning.PendingWrites
import ChildLearning.FacebookAccounts
import ChildLearning.SpeakingScreens
import ChildLearning.Logout
import ChildLearning.ClapHandlers
import ChildLearning.MalformedRecords
import ChildLearning.EmailScan
import ChildLearning.ListsLoading
import ChildLearning.LoadOrder
import ChildLearning.QuizFairness
import ChildLearning.Learning
import ChildLearning.QuizLiveness
import ChildLearning.AccountDirectory
import ChildLearning.NavigationBar
import ChildLearning.OneHome
import ChildLearning.FacebookSignIn
import ChildLearning.OldestAccount
